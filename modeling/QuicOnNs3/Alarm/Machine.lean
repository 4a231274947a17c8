import QuicOnNs3.Alarm.Engine
import QuicOnNs3.Lib.Execution

/-!
# The machines of the alarm engine

A run of the engine is a sequence of operations on one state, issued between
the events of the simulator or inside a callback of `OnTimeout`.  There are
two machines on that state.

* `engineStep` issues the operations of the engine itself on any callback
  object and any token, and a callback may return any `next_timeout_us`.
* `alarmStep` issues the operations of `QuicAlarm` on alarms that are alive,
  and a callback is `Ns3AlarmImpl::OnAlarm`, which returns 0.

An operation that its caller cannot issue, such as one on a destroyed alarm,
is the fault `notEnabled`.
-/

namespace QuicOnNs3.Alarm

open QuicOnNs3.EventQueue QuicOnNs3.Execution

namespace Ns3QuicAlarmEngine

/-- An engine that has just been built, at time `now`. -/
def init (now : Nat) : Ns3QuicAlarmEngine := { sim := { now := now } }

/-- The simulator moves the clock, outside of `OnTimeout`. -/
def advance (e : Ns3QuicAlarmEngine) (now : Nat) : Except Fault Ns3QuicAlarmEngine :=
  if e.frame.isNone && e.sim.canAdvance now then
    .ok { e with sim := { e.sim with now := now } }
  else .error .notEnabled

/-- The simulator may execute the event `ev`: it is the next one, and `OnTimeout`
is not running. -/
def canTimeout (e : Ns3QuicAlarmEngine) (ev : Event) : Bool :=
  e.frame.isNone && ev ∈ e.sim.pending && e.sim.canAdvance ev.ts

/-- The simulator executes the event `ev`. -/
def timeout (e : Ns3QuicAlarmEngine) (ev : Event) : Except Fault Ns3QuicAlarmEngine :=
  if e.canTimeout ev then e.onTimeout ev else .error .notEnabled

/-- The running callback returns `next_timeout_us`. -/
def callbackReturned (e : Ns3QuicAlarmEngine) (nextTimeoutUs : Int) :
    Except Fault Ns3QuicAlarmEngine :=
  match e.frame with
  | none => .error .notEnabled
  | some fr => e.returned fr nextTimeoutUs

/-- An operation of the owner of `a`. -/
def onLive (e : Ns3QuicAlarmEngine) (a : AlarmCB)
    (op : Except Fault Ns3QuicAlarmEngine) : Except Fault Ns3QuicAlarmEngine :=
  if (e.alarms a).alive then op else .error .notEnabled

end Ns3QuicAlarmEngine

/-! ## The operations of the engine -/

/-- One operation on the engine, or one event of the simulator. -/
inductive EngineOp where
  | advance (now : Nat)
  | timeout (ev : Event)
  | callbackReturned (nextTimeoutUs : Int)
  | registerAlarm (timeoutUs : Int) (ac : AlarmCB)
  | unregisterAlarm (token : Nat)
  | reregisterAlarm (token : Nat) (timeoutUs : Int)
  deriving DecidableEq, Repr

/-- One step of the engine. -/
def engineStep (e : Ns3QuicAlarmEngine) : EngineOp → Except Fault Ns3QuicAlarmEngine
  | .advance now => e.advance now
  | .timeout ev => e.timeout ev
  | .callbackReturned nextTimeoutUs => e.callbackReturned nextTimeoutUs
  | .registerAlarm timeoutUs ac => e.registerAlarm timeoutUs ac
  | .unregisterAlarm token => e.unregisterAlarm token
  | .reregisterAlarm token timeoutUs => (e.reregisterAlarm token timeoutUs).map Prod.snd

/-! ## The operations of the alarms -/

/-- One operation on an alarm, or one event of the simulator. -/
inductive AlarmOp where
  | advance (now : Nat)
  | timeout (ev : Event)
  | delegateReturned
  | set (a : AlarmCB) (deadline : Int)
  | update (a : AlarmCB) (deadline : Int)
  | cancel (a : AlarmCB)
  | destroy (a : AlarmCB)
  deriving DecidableEq, Repr

/-- One step of the engine and its alarms. -/
def alarmStep (e : Ns3QuicAlarmEngine) : AlarmOp → Except Fault Ns3QuicAlarmEngine
  | .advance now => e.advance now
  | .timeout ev => e.timeout ev
  | .delegateReturned => e.callbackReturned 0
  | .set a deadline => e.onLive a (e.set a deadline)
  | .update a deadline => e.onLive a (e.update a deadline)
  | .cancel a => e.onLive a (e.cancel a)
  | .destroy a => e.onLive a (e.destroy a)

/-! ## What a step can do -/

namespace Ns3QuicAlarmEngine

variable {e e' : Ns3QuicAlarmEngine}

theorem advance_ok {now : Nat} (h : e.advance now = .ok e') :
    e.frame = none ∧ e.sim.canAdvance now = true ∧
      e' = { e with sim := { e.sim with now := now } } := by
  unfold advance at h
  split_ifs at h with hc
  · simp only [Bool.and_eq_true, Option.isNone_iff_eq_none] at hc
    exact ⟨hc.1, hc.2, by simpa using h.symm⟩

theorem canTimeout_iff {ev : Event} :
    e.canTimeout ev = true ↔
      e.frame = none ∧ ev ∈ e.sim.pending ∧ e.sim.canAdvance ev.ts = true := by
  simp [canTimeout, and_assoc]

theorem timeout_ok {ev : Event} (h : e.timeout ev = .ok e') :
    e.canTimeout ev = true ∧ e.onTimeout ev = .ok e' := by
  unfold timeout at h
  split_ifs at h with hc
  · exact ⟨hc, h⟩

theorem callbackReturned_ok {r : Int} (h : e.callbackReturned r = .ok e') :
    ∃ fr, e.frame = some fr ∧ e.returned fr r = .ok e' := by
  unfold callbackReturned at h
  split at h
  · simp at h
  · rename_i fr hfr
    exact ⟨fr, hfr, h⟩

theorem onLive_ok {a : AlarmCB} {op : Except Fault Ns3QuicAlarmEngine}
    (h : e.onLive a op = .ok e') : (e.alarms a).alive = true ∧ op = .ok e' := by
  unfold onLive at h
  split_ifs at h with hc
  · exact ⟨hc, h⟩

theorem onAlarm_ok {nowUs : Int} {cb : AlarmCB} {rest : List AlarmCB}
    (h : e.onAlarm nowUs cb rest = .ok e') :
    (e.alarms cb).alive = true ∧
      e' = { (e.setAlarm cb fun x => { x with registered := false, deadline := 0 }) with
        frame := some ⟨nowUs, cb, rest⟩ } := by
  unfold onAlarm at h
  split_ifs at h with hc
  · exact ⟨hc, by simpa using h.symm⟩

theorem setAlarm_alarms (e : Ns3QuicAlarmEngine) (a c : AlarmCB) (f : Ns3Alarm → Ns3Alarm) :
    (e.setAlarm a f).alarms c = if c = a then f (e.alarms a) else e.alarms c := by
  simp [Ns3QuicAlarmEngine.setAlarm, Function.update_apply]

theorem setAlarm_allAlarms (e : Ns3QuicAlarmEngine) (a : AlarmCB) (f : Ns3Alarm → Ns3Alarm) :
    (e.setAlarm a f).allAlarms = e.allAlarms := rfl

/-- A field that `f` does not assign keeps its value on every alarm. -/
theorem setAlarm_keeps {α : Type*} (g : Ns3Alarm → α) {f : Ns3Alarm → Ns3Alarm} {a : AlarmCB}
    (hf : ∀ x, g (f x) = g x) (c : AlarmCB) : g ((e.setAlarm a f).alarms c) = g (e.alarms c) := by
  rw [setAlarm_alarms]
  split
  · rename_i hc
    rw [hf, hc]
  · rfl

theorem update_registered {a : AlarmCB} {t : Int} (ha : (e.alarms a).registered = true) :
    e.update a t =
      (e.setAlarm a fun x => { x with deadline := t }).baseReregisterAlarm a t := by
  unfold Ns3QuicAlarmEngine.update
  simp only [setAlarm_alarms, if_true]
  rw [if_pos ha]

theorem update_unregistered {a : AlarmCB} {t : Int} (ha : ¬ (e.alarms a).registered = true) :
    e.update a t = (e.setAlarm a fun x => { x with deadline := t }).registerAlarm t a := by
  unfold Ns3QuicAlarmEngine.update
  simp only [setAlarm_alarms, if_true]
  rw [if_neg ha]

/-- `UpdateImpl` moves the entry of a registered alarm, and registers any other one. -/
theorem update_ok {a : AlarmCB} {t : Int} (h : e.update a t = .ok e') :
    ((e.alarms a).registered = true ∧
        (e.setAlarm a fun x => { x with deadline := t }).baseReregisterAlarm a t = .ok e') ∨
      (e.setAlarm a fun x => { x with deadline := t }).registerAlarm t a = .ok e' := by
  by_cases ha : (e.alarms a).registered = true
  · rw [update_registered ha] at h
    exact Or.inl ⟨ha, h⟩
  · rw [update_unregistered ha] at h
    exact Or.inr h

theorem destroy_ok {a : AlarmCB} (h : e.destroy a = .ok e') :
    ∃ e₁, e.unregisterIfRegistered a = .ok e₁ ∧
      e' = e₁.setAlarm a fun x => { x with alive := false } := by
  obtain ⟨e₁, hu, he⟩ := bind_ok_iff.1 h
  exact ⟨e₁, hu, (Except.ok.inj he).symm⟩

theorem unregisterIfRegistered_ok {a : AlarmCB} (h : e.unregisterIfRegistered a = .ok e') :
    ((e.alarms a).registered = false ∧ e' = e) ∨
      ((e.alarms a).registered = true ∧ e.unregisterAlarm (e.alarms a).token = .ok e') := by
  unfold unregisterIfRegistered at h
  split_ifs at h with hr ha
  · exact Or.inr ⟨hr, h⟩
  · exact Or.inl ⟨by simpa using hr, by simpa using h.symm⟩

theorem baseReregisterAlarm_ok {a : AlarmCB} {t : Int} (h : e.baseReregisterAlarm a t = .ok e') :
    ∃ token e₁, e.reregisterAlarm (e.alarms a).token t = .ok (token, e₁) ∧
      e' = e₁.setAlarm a fun x => { x with token := token } := by
  unfold baseReregisterAlarm at h
  split_ifs at h
  split at h
  · simp at h
  · rename_i token e₁ hre
    exact ⟨token, e₁, hre, by simpa using h.symm⟩

theorem unregisterAlarm_ok {token : Nat} (h : e.unregisterAlarm token = .ok e') :
    ∃ i, e.entryAt token = some i ∧ e' = { e with
      alarmMap := e.alarmMap.filter fun j => j.node ≠ token
      allAlarms := e.allAlarms.erase i.cb
      alarms := Function.update e.alarms i.cb
        { e.alarms i.cb with registered := false } } := by
  unfold unregisterAlarm at h
  split at h
  · simp at h
  · rename_i i hi
    exact ⟨i, hi, by simpa using h.symm⟩

/-- `ReregisterAlarm` moves the entry of a live token, when another entry is
left, and ends with the timer running. -/
theorem reregisterAlarm_ok {token token' : Nat} {t : Int}
    (h : e.reregisterAlarm token t = .ok (token', e')) :
    ∃ i next m, e.entryAt token = some i ∧
      (e.alarmMap.filter fun j => j.node ≠ token) = next :: m ∧
      (e.emplace t i.cb (next :: m)).rearm (t < next.key) = .ok e' ∧
      e'.sim.isRunning e'.timer = true ∧ token' = e.nextNode := by
  unfold reregisterAlarm at h
  split at h
  · simp at h
  rename_i i hi
  split at h
  · simp at h
  rename_i next m hm
  obtain ⟨e₁, hr, h⟩ := bind_ok_iff.1 h
  split_ifs at h with hrun
  obtain ⟨rfl, rfl⟩ : e.nextNode = token' ∧ e₁ = e' := by simpa using h
  exact ⟨i, next, m, hi, hm, hr, hrun, rfl⟩

/-- `returned` either repeats the callback or goes on with the batch, after it
has registered the alarm again. -/
theorem returned_ok {fr : TimeoutFrame} {r : Int} (h : e.returned fr r = .ok e') :
    e.onAlarm fr.nowUs fr.current fr.rest = .ok e' ∨
      (∃ e₁, e.registerAlarm r fr.current = .ok e₁ ∧
        e₁.runCallbacks fr.nowUs fr.rest = .ok e') ∨
      e.runCallbacks fr.nowUs fr.rest = .ok e' := by
  unfold returned at h
  split_ifs at h with h1 h2
  · exact Or.inl h
  · exact Or.inr (Or.inl (bind_ok_iff.1 h))
  · exact Or.inr (Or.inr h)

theorem returned_zero (fr : TimeoutFrame) :
    e.returned fr 0 = e.runCallbacks fr.nowUs fr.rest := by
  simp [returned]

/-- The step of the engine leaves out the token that `ReregisterAlarm` returns. -/
theorem engineStep_reregister_ok {token : Nat} {t : Int}
    (h : engineStep e (.reregisterAlarm token t) = .ok e') :
    ∃ token', e.reregisterAlarm token t = .ok (token', e') := by
  unfold engineStep at h
  cases hr : e.reregisterAlarm token t with
  | error f => simp [hr, Except.map] at h
  | ok r =>
    obtain rfl : r.2 = e' := by simpa [hr, Except.map] using h
    exact ⟨r.1, rfl⟩

end Ns3QuicAlarmEngine

end QuicOnNs3.Alarm
