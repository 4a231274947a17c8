import Mathlib.Data.Finset.Basic
import QuicOnNs3.Lib.EventQueue
import QuicOnNs3.Lib.Multimap

/-!
# The alarm engine

`Ns3QuicAlarmEngine` keeps the armed alarms of a QUIC endpoint in
`alarm_map_`, a multimap from a deadline in microseconds to the alarm, and
in the set `all_alarms_`.  One simulator event, `timer_`, runs `OnTimeout`
for the earliest deadline.  This module is the engine as the code computes
it, with the `BaseAlarm` and `Ns3Alarm` objects it calls back.

An iterator of `alarm_map_` is the identity of a map node, `node`.  A node
that is erased is gone for good, so an operation on an iterator whose node is
not in the map is the fault `erasedToken`.  The other faults are a failed
`NS_ASSERT`, a call through the null `engine_` and a call on an alarm that has
been destroyed.

`OnTimeout` runs delegate callbacks between the statements of its loop, so its
state is a `TimeoutFrame`: the callback that is running and the rest of the
batch `cbs`.  The machines of `QuicOnNs3.Alarm.Machine` take one operation
after another on this state, inside and outside of a frame.
-/

namespace QuicOnNs3.Alarm

open QuicOnNs3.EventQueue

/-! ## The data model -/

/-- An alarm callback object, by its identity. -/
abbrev AlarmCB := Nat

/-- A node of `alarm_map_`. -/
structure MapEntry where
  key : Int
  cb : AlarmCB
  node : Nat
  deriving DecidableEq, Repr

/-- An `Ns3Alarm` with its `BaseAlarm`.  `deadline` is in microseconds, and 0
when it is not set; `attached` says that `BaseAlarm::engine_` is not null. -/
structure Ns3Alarm where
  deadline : Int := 0
  registered : Bool := false
  token : Nat := 0
  attached : Bool := false
  alive : Bool := true
  deriving DecidableEq, Repr

/-- `OnTimeout` while the callback of `current` runs. -/
structure TimeoutFrame where
  nowUs : Int
  current : AlarmCB
  rest : List AlarmCB
  deriving DecidableEq, Repr

/-- The engine, the simulator it schedules on and the alarms that use it. -/
structure Ns3QuicAlarmEngine where
  sim : Simulator
  timer : EventId := none
  alarmMap : List MapEntry := []
  allAlarms : Finset AlarmCB := ∅
  nextNode : Nat := 1
  alarms : AlarmCB → Ns3Alarm := fun _ => {}
  frame : Option TimeoutFrame := none

/-- What stops the program. -/
inductive Fault where
  | erasedToken
  | assertFailed
  | nullEngine
  | destroyedAlarm
  | notEnabled
  deriving DecidableEq, Repr

namespace Ns3QuicAlarmEngine

/-- `Simulator::Now().GetMicroSeconds()`. -/
def nowUs (e : Ns3QuicAlarmEngine) : Int := (e.sim.now / 1000 : Nat)

/-- The entry that an iterator designates, if it has not been erased. -/
def entryAt (e : Ns3QuicAlarmEngine) (token : Nat) : Option MapEntry :=
  e.alarmMap.find? fun i => i.node = token

/-- Assign the fields of one alarm. -/
def setAlarm (e : Ns3QuicAlarmEngine) (a : AlarmCB) (f : Ns3Alarm → Ns3Alarm) :
    Ns3QuicAlarmEngine :=
  { e with alarms := Function.update e.alarms a (f (e.alarms a)) }

/-! ## The engine -/

/-- `Ns3QuicAlarmEngine::UpdateTimer`. -/
def updateTimer (e : Ns3QuicAlarmEngine) : Except Fault Ns3QuicAlarmEngine :=
  let sim := if e.sim.isRunning e.timer then e.sim.cancel e.timer else e.sim
  match e.alarmMap with
  | [] => .ok { e with sim := sim }
  | i :: _ =>
    if i.key < e.nowUs then .error .assertFailed
    else
      let scheduled := sim.schedule ((i.key - e.nowUs).toNat * 1000)
      .ok { e with timer := scheduled.1, sim := scheduled.2 }

/-- `UpdateTimer` when the timer is not running or the new key comes first. -/
def rearm (e : Ns3QuicAlarmEngine) (update : Bool) : Except Fault Ns3QuicAlarmEngine :=
  if !e.sim.isRunning e.timer || update then e.updateTimer else .ok e

/-- `alarm_map_.insert`, `all_alarms_.insert` and `BaseAlarm::OnRegistration`. -/
def insertAlarm (e : Ns3QuicAlarmEngine) (timeoutUs : Int) (ac : AlarmCB) :
    Ns3QuicAlarmEngine :=
  { e with
    alarmMap := Multimap.insertUpper MapEntry.key ⟨timeoutUs, ac, e.nextNode⟩ e.alarmMap
    allAlarms := insert ac e.allAlarms
    nextNode := e.nextNode + 1
    alarms := Function.update e.alarms ac
      { e.alarms ac with token := e.nextNode, attached := true, registered := true } }

/-- Insert the alarm unless it is in `all_alarms_` already. -/
def ensureAlarm (e : Ns3QuicAlarmEngine) (timeoutUs : Int) (ac : AlarmCB) :
    Ns3QuicAlarmEngine :=
  if ac ∈ e.allAlarms then e else e.insertAlarm timeoutUs ac

/-- Whether `timeout_us` precedes every key of the map. -/
def precedes (timeoutUs : Int) (m : List MapEntry) : Bool :=
  match m with
  | [] => true
  | i :: _ => timeoutUs < i.key

/-- A deadline in the past counts as the present. -/
def clamp (e : Ns3QuicAlarmEngine) (timeoutUs : Int) : Int :=
  if timeoutUs < e.nowUs then e.nowUs else timeoutUs

/-- `Ns3QuicAlarmEngine::RegisterAlarm`. -/
def registerAlarm (e : Ns3QuicAlarmEngine) (timeoutUs : Int) (ac : AlarmCB) :
    Except Fault Ns3QuicAlarmEngine :=
  (e.ensureAlarm (e.clamp timeoutUs) ac).rearm (precedes (e.clamp timeoutUs) e.alarmMap)

/-- `Ns3QuicAlarmEngine::UnregisterAlarm`, with `BaseAlarm::OnUnregistration`. -/
def unregisterAlarm (e : Ns3QuicAlarmEngine) (token : Nat) :
    Except Fault Ns3QuicAlarmEngine :=
  match e.entryAt token with
  | none => .error .erasedToken
  | some i =>
    .ok { e with
      alarmMap := e.alarmMap.filter fun j => j.node ≠ token
      allAlarms := e.allAlarms.erase i.cb
      alarms := Function.update e.alarms i.cb { e.alarms i.cb with registered := false } }

/-- `alarm_map_.emplace` on the map `m`. -/
def emplace (e : Ns3QuicAlarmEngine) (timeoutUs : Int) (cb : AlarmCB) (m : List MapEntry) :
    Ns3QuicAlarmEngine :=
  { e with
    alarmMap := Multimap.insertUpper MapEntry.key ⟨timeoutUs, cb, e.nextNode⟩ m
    nextNode := e.nextNode + 1 }

/-- `Ns3QuicAlarmEngine::ReregisterAlarm`, with the token it returns. -/
def reregisterAlarm (e : Ns3QuicAlarmEngine) (token : Nat) (timeoutUs : Int) :
    Except Fault (Nat × Ns3QuicAlarmEngine) :=
  match e.entryAt token with
  | none => .error .erasedToken
  | some i =>
    match e.alarmMap.filter fun j => j.node ≠ token with
    | [] => .error .assertFailed
    | next :: m => do
      let e' ← (e.emplace timeoutUs i.cb (next :: m)).rearm (timeoutUs < next.key)
      if e'.sim.isRunning e'.timer then .ok (e.nextNode, e') else .error .assertFailed

/-- `Ns3QuicAlarmEngine::Shutdown`, with `BaseAlarm::OnShutdown`. -/
def shutdownLoop (e : Ns3QuicAlarmEngine) : List MapEntry → Except Fault Ns3QuicAlarmEngine
  | [] => .ok { e with alarmMap := [] }
  | i :: m =>
    if (e.alarms i.cb).alive then
      shutdownLoop { e with
        alarmMap := m
        allAlarms := e.allAlarms.erase i.cb
        alarms := Function.update e.alarms i.cb
          { e.alarms i.cb with registered := false, attached := false } } m
    else .error .destroyedAlarm

@[inherit_doc shutdownLoop]
def shutdown (e : Ns3QuicAlarmEngine) : Except Fault Ns3QuicAlarmEngine :=
  e.shutdownLoop e.alarmMap

/-! ## `OnTimeout` -/

/-- The entries that the first loop of `OnTimeout` erases. -/
def due (e : Ns3QuicAlarmEngine) (nowUs : Int) : List MapEntry :=
  e.alarmMap.takeWhile fun i => i.key ≤ nowUs

/-- The containers after the first loop of `OnTimeout`. -/
def drain (e : Ns3QuicAlarmEngine) (nowUs : Int) : Ns3QuicAlarmEngine :=
  { e with
    alarmMap := e.alarmMap.dropWhile fun i => i.key ≤ nowUs
    allAlarms := (e.due nowUs).foldl (fun s i => s.erase i.cb) e.allAlarms }

/-- `OnAlarm` of `Ns3AlarmImpl` up to the delegate: `BaseAlarm::OnAlarm`
unregisters the alarm and `Fire` clears its deadline. -/
def onAlarm (e : Ns3QuicAlarmEngine) (nowUs : Int) (cb : AlarmCB) (rest : List AlarmCB) :
    Except Fault Ns3QuicAlarmEngine :=
  if (e.alarms cb).alive then
    .ok { (e.setAlarm cb fun x => { x with registered := false, deadline := 0 }) with
      frame := some ⟨nowUs, cb, rest⟩ }
  else .error .destroyedAlarm

/-- The second loop of `OnTimeout` from the callbacks `cbs` on: the next
callback starts, or `OnTimeout` ends with `UpdateTimer`. -/
def runCallbacks (e : Ns3QuicAlarmEngine) (nowUs : Int) :
    List AlarmCB → Except Fault Ns3QuicAlarmEngine
  | [] => { e with frame := none }.updateTimer
  | cb :: rest => e.onAlarm nowUs cb rest

/-- The simulator executes the timer event: `OnTimeout` up to its first
callback. -/
def onTimeout (e : Ns3QuicAlarmEngine) (ev : Event) : Except Fault Ns3QuicAlarmEngine :=
  let e := { e with sim := e.sim.execute ev }
  (e.drain e.nowUs).runCallbacks e.nowUs ((e.due e.nowUs).map MapEntry.cb)

/-- The callback of the frame `fr` has returned `next_timeout_us`: the do-while
loop repeats it, or it is registered again and the loop goes on. -/
def returned (e : Ns3QuicAlarmEngine) (fr : TimeoutFrame) (nextTimeoutUs : Int) :
    Except Fault Ns3QuicAlarmEngine :=
  if 0 < nextTimeoutUs ∧ nextTimeoutUs ≤ fr.nowUs then
    e.onAlarm fr.nowUs fr.current fr.rest
  else if 0 < nextTimeoutUs then do
    let e ← e.registerAlarm nextTimeoutUs fr.current
    e.runCallbacks fr.nowUs fr.rest
  else e.runCallbacks fr.nowUs fr.rest

/-! ## `BaseAlarm` and `Ns3Alarm` -/

/-- `BaseAlarm::UnregisterIfRegistered`. -/
def unregisterIfRegistered (e : Ns3QuicAlarmEngine) (a : AlarmCB) :
    Except Fault Ns3QuicAlarmEngine :=
  if (e.alarms a).registered then
    if (e.alarms a).attached then e.unregisterAlarm (e.alarms a).token else .error .nullEngine
  else .ok e

/-- `BaseAlarm::ReregisterAlarm`: the token is the one the engine returns. -/
def baseReregisterAlarm (e : Ns3QuicAlarmEngine) (a : AlarmCB) (timeoutUs : Int) :
    Except Fault Ns3QuicAlarmEngine :=
  if (e.alarms a).attached then
    match e.reregisterAlarm (e.alarms a).token timeoutUs with
    | .error f => .error f
    | .ok (token, e) => .ok (e.setAlarm a fun x => { x with token := token })
  else .error .nullEngine

/-- `QuicAlarm::Set` and `Ns3Alarm::SetImpl`, for a deadline that is initialized: not 0. -/
def set (e : Ns3QuicAlarmEngine) (a : AlarmCB) (deadline : Int) :
    Except Fault Ns3QuicAlarmEngine :=
  (e.setAlarm a fun x => { x with deadline := deadline }).registerAlarm deadline a

/-- `QuicAlarm::Cancel` and `Ns3Alarm::CancelImpl`. -/
def cancel (e : Ns3QuicAlarmEngine) (a : AlarmCB) : Except Fault Ns3QuicAlarmEngine :=
  (e.setAlarm a fun x => { x with deadline := 0 }).unregisterIfRegistered a

/-- `QuicAlarm::Update` and `Ns3Alarm::UpdateImpl`, for a deadline that is initialized and
that passes the test of the granularity. -/
def update (e : Ns3QuicAlarmEngine) (a : AlarmCB) (deadline : Int) :
    Except Fault Ns3QuicAlarmEngine :=
  let e := e.setAlarm a fun x => { x with deadline := deadline }
  if (e.alarms a).registered then e.baseReregisterAlarm a deadline
  else e.registerAlarm deadline a

/-- `~Ns3Alarm`, which runs `~BaseAlarm`. -/
def destroy (e : Ns3QuicAlarmEngine) (a : AlarmCB) : Except Fault Ns3QuicAlarmEngine := do
  let e ← e.unregisterIfRegistered a
  .ok (e.setAlarm a fun x => { x with alive := false })

end Ns3QuicAlarmEngine

end QuicOnNs3.Alarm
