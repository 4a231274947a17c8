import QuicOnNs3.Alarm.Registration
import QuicOnNs3.Alarm.Timer

/-!
# Tearing the engine down

`Shutdown` empties the containers and unregisters the alarms they hold, and it
never touches `timer_`.  `shutdownLoop_eq` is what it does.  The engine is
destroyed by `StopApplication`, which is an event of its own, and the simulation
goes on: `lifeStep` is the machine of an engine that may be destroyed, in which
executing the timer event of a destroyed engine is the fault `calledBack`.
-/

namespace QuicOnNs3.Alarm

open QuicOnNs3.EventQueue QuicOnNs3.Execution

namespace Ns3QuicAlarmEngine

variable {e e' : Ns3QuicAlarmEngine}

/-- The engine after `Shutdown` has visited the entries `m`. -/
def closed (e : Ns3QuicAlarmEngine) (m : List MapEntry) : Ns3QuicAlarmEngine :=
  { e with
    alarmMap := []
    allAlarms := m.foldl (fun s i => s.erase i.cb) e.allAlarms
    alarms := fun a =>
      if a ∈ m.map MapEntry.cb then { e.alarms a with registered := false, attached := false }
      else e.alarms a }

/-- The alarms of a list of entries are alive. -/
def AllAlive (e : Ns3QuicAlarmEngine) (m : List MapEntry) : Prop :=
  ∀ i ∈ m, (e.alarms i.cb).alive = true

instance (e : Ns3QuicAlarmEngine) (m : List MapEntry) : Decidable (e.AllAlive m) :=
  inferInstanceAs (Decidable (∀ i ∈ m, (e.alarms i.cb).alive = true))

/-- `Shutdown` visits every entry, unless it meets a destroyed alarm. -/
theorem shutdownLoop_eq (e : Ns3QuicAlarmEngine) (m : List MapEntry) :
    e.shutdownLoop m = if e.AllAlive m then .ok (e.closed m) else .error .destroyedAlarm := by
  induction m generalizing e with
  | nil => simp [shutdownLoop, AllAlive, closed]
  | cons i m ih =>
    rw [shutdownLoop]
    set e₁ : Ns3QuicAlarmEngine := { e with
      alarmMap := m
      allAlarms := e.allAlarms.erase i.cb
      alarms := Function.update e.alarms i.cb
        { e.alarms i.cb with registered := false, attached := false } } with he₁
    have hstep : ∀ a, e₁.alarms a = if a = i.cb
        then { e.alarms i.cb with registered := false, attached := false } else e.alarms a := by
      intro a
      simp [he₁, Function.update_apply]
    have halive : e₁.AllAlive m ↔ e.AllAlive m := by
      refine forall₂_congr fun j _ => ?_
      rw [hstep]
      split
      · rename_i hj
        rw [hj]
      · rfl
    have hclosed : e₁.closed m = e.closed (i :: m) := by
      simp only [closed, List.foldl_cons, List.map_cons, List.mem_cons]
      congr 1
      funext a
      rw [hstep]
      by_cases ha : a = i.cb <;> by_cases hm : a ∈ m.map MapEntry.cb <;> simp [ha, hm]
    rw [ih, hclosed]
    by_cases hi : (e.alarms i.cb).alive = true
    · simp [AllAlive, hi] at halive ⊢
      simp only [halive]
    · simp [AllAlive, hi]

theorem shutdown_ok (h : e.shutdown = .ok e') : e' = e.closed e.alarmMap := by
  rw [shutdown, shutdownLoop_eq] at h
  split_ifs at h
  simpa using h.symm

/-! ## What `Shutdown` is for -/

/-- `Shutdown` leaves nothing of the engine behind: it ends, the containers are
empty, no alarm is registered and no event is pending. -/
def ShutdownComplete (e : Ns3QuicAlarmEngine) : Prop :=
  ∃ e', e.shutdown = .ok e' ∧ e'.alarmMap = [] ∧ e'.allAlarms = ∅ ∧
    (∀ a, (e'.alarms a).registered = false) ∧ e'.sim.pending = []

/-- The set empties with the map. -/
theorem MapInv.closed_allAlarms (h : MapInv e) : (e.closed e.alarmMap).allAlarms = ∅ := by
  refine Finset.eq_empty_of_forall_notMem fun a ha => ?_
  obtain ⟨hmem, hnot⟩ := mem_foldl_erase.1 ha
  exact hnot ((h.mem_all a).1 hmem)

theorem MapInv.closed_registered (h : MapInv e) :
    (∀ a, ((e.closed e.alarmMap).alarms a).registered = false) ↔
      ∀ a, (e.alarms a).registered = true → a ∈ e.allAlarms := by
  refine forall_congr' fun a => ?_
  by_cases ha : a ∈ e.alarmMap.map MapEntry.cb
  · simp only [closed, h.mem_all, ha, implies_true, if_true]
  · simp only [closed, h.mem_all, ha, imp_false, Bool.not_eq_true, if_false]

theorem shutdownComplete_iff (hm : MapInv e) (ht : TimerInv e) :
    ShutdownComplete e ↔ e.sim.isRunning e.timer = false ∧
      (∀ a, (e.alarms a).registered = true → a ∈ e.allAlarms) ∧ e.AllAlive e.alarmMap := by
  rw [ht.sole.not_running_iff, ← hm.closed_registered]
  constructor
  · rintro ⟨e', hs, -, -, hreg, hpending⟩
    obtain rfl := shutdown_ok hs
    refine ⟨hpending, hreg, ?_⟩
    by_contra hdead
    simp [shutdown, shutdownLoop_eq, hdead] at hs
  · rintro ⟨hpending, hreg, halive⟩
    refine ⟨e.closed e.alarmMap, ?_, rfl, hm.closed_allAlarms, hreg, hpending⟩
    rw [shutdown, shutdownLoop_eq, if_pos halive]

/-- An engine with an alarm always leaves its timer behind. -/
theorem TimerInv.closed_pending (h : TimerInv e) (hf : e.frame = none) (hne : e.alarmMap ≠ []) :
    (e.closed e.alarmMap).sim.pending ≠ [] := by
  obtain ⟨ev, hev, -⟩ := h.armed hf hne
  exact List.ne_nil_of_mem hev

end Ns3QuicAlarmEngine

open Ns3QuicAlarmEngine

/-! ## The life of an engine -/

/-- An engine and whether it has been destroyed. -/
structure EngineLife where
  engine : Ns3QuicAlarmEngine
  destroyed : Bool := false

/-- An operation on a live engine, its destruction, or an event of the simulator. -/
inductive LifeOp where
  | alarm (op : AlarmOp)
  | destroyEngine
  deriving DecidableEq, Repr

/-- What stops the program, with the call of `OnTimeout` on a destroyed engine. -/
inductive LifeFault where
  | engine (f : Fault)
  | calledBack
  deriving DecidableEq, Repr

/-- The life of the engine after an operation on it. -/
def afterwards (destroyed : Bool) :
    Except Fault Ns3QuicAlarmEngine → Except LifeFault EngineLife
  | .ok e => .ok ⟨e, destroyed⟩
  | .error f => .error (.engine f)

/-- The simulator goes on after the engine has been destroyed. -/
def destroyedStep (e : Ns3QuicAlarmEngine) : AlarmOp → Except LifeFault EngineLife
  | .advance now => afterwards true (e.advance now)
  | .timeout ev => if e.canTimeout ev then .error .calledBack else .error (.engine .notEnabled)
  | _ => .error (.engine .notEnabled)

/-- One step of the engine's life.  `~Ns3QuicAlarmEngine` runs `Shutdown`, outside
of `OnTimeout`. -/
def lifeStep (s : EngineLife) : LifeOp → Except LifeFault EngineLife
  | .alarm op =>
    if s.destroyed then destroyedStep s.engine op
    else afterwards false (alarmStep s.engine op)
  | .destroyEngine =>
    if s.destroyed || s.engine.frame.isSome then .error (.engine .notEnabled)
    else afterwards true s.engine.shutdown

/-- The engine is not destroyed while its timer is running. -/
def QuietDestruction (s : EngineLife) (op : LifeOp) : Prop :=
  op = .destroyEngine → s.engine.sim.isRunning s.engine.timer = false

theorem afterwards_ok {destroyed : Bool} {x : Except Fault Ns3QuicAlarmEngine} {s : EngineLife}
    (h : afterwards destroyed x = .ok s) : ∃ e, x = .ok e ∧ s = ⟨e, destroyed⟩ := by
  cases x with
  | error f => simp [afterwards] at h
  | ok e => exact ⟨e, rfl, by simpa [afterwards] using h.symm⟩

theorem afterwards_ne_calledBack {destroyed : Bool} {x : Except Fault Ns3QuicAlarmEngine} :
    afterwards destroyed x ≠ .error .calledBack := by
  cases x <;> simp [afterwards]

/-- A live engine has its invariant, and a destroyed one has no pending event. -/
structure LifeInv (s : EngineLife) : Prop where
  live : s.destroyed = false → TimerInv s.engine
  quiet : s.destroyed = true → s.engine.sim.pending = []

theorem lifeInv_step {s t : EngineLife} {op : LifeOp} (h : LifeInv s)
    (hq : QuietDestruction s op) (hs : lifeStep s op = .ok t) : LifeInv t := by
  cases op with
  | alarm op =>
    simp only [lifeStep] at hs
    split_ifs at hs with hd
    · cases op with
      | advance now =>
        obtain ⟨e', he, rfl⟩ := afterwards_ok hs
        obtain ⟨-, -, rfl⟩ := advance_ok he
        exact ⟨by simp, fun _ => h.quiet hd⟩
      | timeout ev =>
        simp only [destroyedStep] at hs
        split_ifs at hs
      | _ => simp [destroyedStep] at hs
    · obtain ⟨e', he, rfl⟩ := afterwards_ok hs
      exact ⟨fun _ => timerInv_alarmStep (h.live (by simpa using hd)) he, by simp⟩
  | destroyEngine =>
    simp only [lifeStep] at hs
    split_ifs at hs with hd
    obtain ⟨e', he, rfl⟩ := afterwards_ok hs
    obtain rfl := shutdown_ok he
    have hlive : s.destroyed = false := by simp_all
    exact ⟨by simp, fun _ => (h.live hlive).sole.not_running_iff.1 (hq rfl)⟩

theorem LifeInv.not_calledBack {s : EngineLife} (h : LifeInv s) (op : LifeOp) :
    lifeStep s op ≠ .error .calledBack := by
  cases op with
  | destroyEngine =>
    simp only [lifeStep]
    split_ifs
    · simp
    · exact afterwards_ne_calledBack
  | alarm op =>
    simp only [lifeStep]
    split_ifs with hd
    · cases op with
      | advance now => exact afterwards_ne_calledBack
      | timeout ev =>
        have hno : s.engine.canTimeout ev ≠ true := by
          rw [Ne, canTimeout_iff, h.quiet hd]
          simp
        simp [destroyedStep, hno]
      | _ => simp [destroyedStep]
    · exact afterwards_ne_calledBack

/-- The event that `Shutdown` leaves behind can be executed. -/
theorem calledBack_of_running {e e' : Ns3QuicAlarmEngine} (h : TimerInv e)
    (hf : e.frame = none) (hs : e.shutdown = .ok e')
    (hrun : e.sim.isRunning e.timer = true) :
    ∃ ev, lifeStep ⟨e', true⟩ (.alarm (.timeout ev)) = .error .calledBack := by
  obtain rfl := shutdown_ok hs
  obtain ⟨ev, hev, -⟩ := h.sole.running_iff.1 hrun
  have hcan : (e.closed e.alarmMap).canTimeout ev = true := by
    refine canTimeout_iff.2 ⟨hf, ?_, Simulator.canAdvance_iff.2 ⟨?_, ?_⟩⟩
    · simp [closed, hev]
    · exact h.pending_ge ev (by simp [hev])
    · simp [closed, hev]
  exact ⟨ev, by simp [lifeStep, destroyedStep, hcan]⟩

/-- `Shutdown` in a reachable state leaves nothing behind exactly when the
timer is not running, every registered alarm is in `all_alarms_` and no
destroyed alarm is in `alarm_map_`.  The first condition at every destruction
keeps a whole run from calling `OnTimeout` on a destroyed engine, and where it
fails the next event of the simulator is such a call. -/
theorem shutdown_complete_iff (now₀ : Nat) :
    (∀ e, Reachable alarmStep (init now₀) e →
      (ShutdownComplete e ↔ e.sim.isRunning e.timer = false ∧
        (∀ a, (e.alarms a).registered = true → a ∈ e.allAlarms) ∧ e.AllAlive e.alarmMap)) ∧
    (∀ ops, Each lifeStep QuietDestruction ⟨init now₀, false⟩ ops →
      Each lifeStep (fun s op => lifeStep s op ≠ .error .calledBack) ⟨init now₀, false⟩ ops) ∧
    ∀ e e', Reachable alarmStep (init now₀) e → e.frame = none → e.shutdown = .ok e' →
      e.sim.isRunning e.timer = true →
      ∃ ev, lifeStep ⟨e', true⟩ (.alarm (.timeout ev)) = .error .calledBack := by
  have htimer : ∀ e, Reachable alarmStep (init now₀) e → TimerInv e := fun e h =>
    h.invariant (timerInv_init now₀) fun _ _ _ hi _ => timerInv_alarmStep hi
  refine ⟨fun e h => shutdownComplete_iff (mapInv_reachable h) (htimer e h), ?_, ?_⟩
  · intro ops hquiet
    refine each_of_each (I := LifeInv) (fun s op hi _ => hi.not_calledBack op)
      (fun s op t hi hq hs => lifeInv_step hi hq hs) ?_ hquiet
    exact ⟨fun _ => timerInv_init now₀, by simp⟩
  · exact fun e e' h hf hs hrun => calledBack_of_running (htimer e h) hf hs hrun

/-- An alarm that is set and cancelled leaves the containers empty and the
timer armed, and its event is executed after the engine is gone. -/
theorem shutdown_leaves_event :
    (∃ e, Reachable alarmStep (init 0) e ∧ ¬ ShutdownComplete e) ∧
      ¬ Each lifeStep (fun s op => lifeStep s op ≠ .error .calledBack) ⟨init 0, false⟩
        [.alarm (.set 1 5), .alarm (.cancel 1), .destroyEngine,
          .alarm (.timeout ⟨0, 5000⟩)] := by
  constructor
  · refine ⟨_, .tail (a := .cancel 1) (.tail (a := .set 1 5) .refl trivial rfl) trivial rfl, ?_⟩
    rintro ⟨e', hs, -, -, -, hpending⟩
    obtain rfl := shutdown_ok hs
    exact absurd hpending (by decide)
  · intro h
    exact ((((h.2 _ rfl).2 _ rfl).2 _ rfl).1) rfl

end QuicOnNs3.Alarm
