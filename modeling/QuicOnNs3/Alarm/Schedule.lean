import QuicOnNs3.Alarm.TimeoutCall
import QuicOnNs3.Lib.Scheduler

/-!
# The engine is a scheduler of deadlines

`alarm_map_`, the timer and the batch of `OnTimeout` implement one thing: alarms
that are armed with a deadline run at that deadline.  `scheduler` reads the
abstract scheduler off the engine, with the keys of the map as the deadlines and
the batch as what has expired, and `actions` says what a step of the engine is
there.

`alarmStep_refines` is the simulation, one case for each operation.  The results
follow from it by the rules of the scheduler: every delegate runs in the
microsecond that its alarm was armed for, once for each arming, and none is missed.
-/

namespace QuicOnNs3.Alarm

open QuicOnNs3.EventQueue QuicOnNs3.Execution QuicOnNs3.Scheduling

open Ns3QuicAlarmEngine

/-! ## The scheduler of an engine -/

namespace Ns3QuicAlarmEngine

/-- The key of the entry that carries `a`. -/
def armedFor (e : Ns3QuicAlarmEngine) (a : AlarmCB) : Option Int :=
  (e.entriesOf a).head?.map MapEntry.key

/-- The scheduler that the engine implements. -/
def scheduler (e : Ns3QuicAlarmEngine) : Scheduler AlarmCB Int where
  now := e.nowUs
  armed := e.armedFor
  expired := e.batch

/-- The arming of an alarm that is not in `all_alarms_`.  One that is keeps its entry. -/
def registerActions (e : Ns3QuicAlarmEngine) (a : AlarmCB) (deadline : Int) :
    List (SchedulerAction AlarmCB Int) :=
  if a ∈ e.allAlarms then [] else [.arm a (e.clamp deadline)]

/-- The start of the first callback of `cbs`. -/
def runNext (cbs : List AlarmCB) : List (SchedulerAction AlarmCB Int) :=
  cbs.head?.toList.map .run

/-- What an operation is for the scheduler. -/
def actions (e : Ns3QuicAlarmEngine) : AlarmOp → List (SchedulerAction AlarmCB Int)
  | .advance now => [.pass (now / 1000 : Nat)]
  | .timeout ev =>
    let cbs := (e.dueAt ev).map MapEntry.cb
    .pass (ev.ts / 1000 : Nat) :: .expire cbs :: runNext cbs
  | .delegateReturned => runNext e.batch
  | .set a deadline => e.registerActions a deadline
  | .update a deadline =>
    if (e.alarms a).registered then [.arm a deadline] else e.registerActions a deadline
  | .cancel a | .destroy a => [.disarm a]

/-- The delegates that an operation starts, with the state after it. -/
def startedBy (op : AlarmOp) (e' : Ns3QuicAlarmEngine) : List AlarmCB :=
  match op with
  | .timeout _ | .delegateReturned => e'.running
  | _ => []

/-- The actions of a run. -/
def runActions (e : Ns3QuicAlarmEngine) : List AlarmOp → List (SchedulerAction AlarmCB Int)
  | [] => []
  | op :: ops =>
    match alarmStep e op with
    | .error _ => []
    | .ok e' => e.actions op ++ e'.runActions ops

/-- The alarms whose delegates start in a run, one after another. -/
def delegatesStarted (e : Ns3QuicAlarmEngine) : List AlarmOp → List AlarmCB
  | [] => []
  | op :: ops =>
    match alarmStep e op with
    | .error _ => []
    | .ok e' => startedBy op e' ++ e'.delegatesStarted ops

variable {e e' : Ns3QuicAlarmEngine} {a : AlarmCB} {d : Int}

/-! ## The deadlines of the alarms -/

theorem armedFor_of_mem (h : MapInv e) {i : MapEntry} (hi : i ∈ e.alarmMap) :
    e.armedFor i.cb = some i.key := by
  rw [armedFor, h.entriesOf_cb hi]
  rfl

theorem armedFor_eq_none (h : MapInv e) (ha : a ∉ e.allAlarms) : e.armedFor a = none := by
  rw [mem_allAlarms_iff h, not_not] at ha
  rw [armedFor, ha]
  rfl

theorem armedFor_iff (h : MapInv e) :
    e.armedFor a = some d ↔ ∃ i ∈ e.alarmMap, i.cb = a ∧ i.key = d := by
  constructor
  · intro ha
    by_cases hmem : a ∈ e.allAlarms
    · obtain ⟨i, hi, hcb⟩ := h.exists_entry hmem
      refine ⟨i, hi, hcb, ?_⟩
      rw [← hcb, armedFor_of_mem h hi] at ha
      exact Option.some.inj ha
    · rw [armedFor_eq_none h hmem] at ha
      simp at ha
  · intro ⟨i, hi, hcb, hkey⟩
    rw [← hcb, armedFor_of_mem h hi, hkey]

/-- The scheduler after an operation on `a` that leaves it armed with `o`. -/
theorem Touches.scheduler_eq (h : Touches e a e') (htoken : TokenInv e) {o : Option Int}
    (ha : e'.armedFor a = o) :
    e'.scheduler = { e.scheduler with armed := Function.update e.scheduler.armed a o } := by
  ext1
  · simp only [scheduler, nowUs, h.now]
  · funext b
    simp only [scheduler, Function.update_apply]
    split
    · rename_i hb
      rw [hb, ha]
    · rename_i hb
      rw [armedFor, h.entriesOf htoken hb, armedFor]
  · exact h.batch

end Ns3QuicAlarmEngine

section Step

variable {e e' : Ns3QuicAlarmEngine} {op : AlarmOp} {a : AlarmCB} {d : Int}

/-! ## The operations on an alarm -/

/-- Registering an alarm outside of the batch. -/
theorem CallInv.register_refines (h : CallInv e) (h' : MapInv e') (hb : a ∉ e.batch)
    (htouches : Touches e a e')
    (hmap : e'.alarmMap = (e.ensureAlarm (e.clamp d) a).alarmMap) :
    Steps e.scheduler (e.registerActions a d) e'.scheduler := by
  unfold registerActions
  unfold ensureAlarm at hmap
  split
  · rename_i ha
    rw [if_pos ha] at hmap
    have hsame : e'.armedFor a = e.armedFor a := by
      rw [armedFor, entriesOf, hmap]
      rfl
    have heq : Function.update e.scheduler.armed a (e.armedFor a) = e.scheduler.armed :=
      Function.update_eq_self ..
    rw [htouches.scheduler_eq h.token hsame, heq]
    exact .nil _
  · rename_i ha
    rw [if_neg ha] at hmap
    have hmem : ⟨e.clamp d, a, e.nextNode⟩ ∈ e'.alarmMap := by
      rw [hmap]
      exact Multimap.mem_insertUpper.2 (Or.inl rfl)
    rw [htouches.scheduler_eq h.token (armedFor_of_mem h' hmem)]
    refine (Step.arm hb ?_).single
    show e.nowUs ≤ e.clamp d
    unfold clamp
    split_ifs <;> omega

theorem registerAlarm_map
    (hr : (e.setAlarm a fun x => { x with deadline := d }).registerAlarm d a = .ok e') :
    e'.alarmMap = (e.ensureAlarm (e.clamp d) a).alarmMap := by
  obtain ⟨timer, sim, heq⟩ := rearm_fields hr
  rw [heq]
  show ((e.setAlarm a _).ensureAlarm (e.clamp d) a).alarmMap = _
  unfold ensureAlarm
  rw [setAlarm_allAlarms]
  split <;> rfl

/-- Moving the entry of a registered alarm. -/
theorem CallInv.move_refines (h : CallInv e) (h' : MapInv e') (hb : a ∉ e.batch)
    (htouches : Touches e a e') (hle : e.nowUs ≤ d)
    (hr : (e.setAlarm a fun x => { x with deadline := d }).baseReregisterAlarm a d = .ok e') :
    Steps e.scheduler [.arm a d] e'.scheduler := by
  obtain ⟨token, e₁, hre, heq⟩ := baseReregisterAlarm_ok hr
  obtain ⟨i, next, m, hi, hm, hrearm, _⟩ := reregisterAlarm_ok hre
  obtain ⟨timer, sim, he₁⟩ := rearm_fields hrearm
  have hcb : i.cb = a := (h.token.setDeadline a d).entryAt_cb hi
  have hmem : ⟨d, a, e.nextNode⟩ ∈ e'.alarmMap := by
    rw [heq, he₁, hcb]
    exact Multimap.mem_insertUpper.2 (Or.inl rfl)
  rw [htouches.scheduler_eq h.token (armedFor_of_mem h' hmem)]
  exact (Step.arm hb hle).single

/-- Taking an alarm off the map, if it is there. -/
theorem CallInv.disarm_refines (h : CallInv e) (h' : MapInv e') (hb : a ∉ e.batch)
    (htouches : Touches e a e') (hout : a ∉ e'.allAlarms) :
    Steps e.scheduler [.disarm a] e'.scheduler := by
  rw [htouches.scheduler_eq h.token (armedFor_eq_none h' hout)]
  exact (Step.disarm hb).single

/-- An alarm that was cancelled or destroyed has no entry. -/
theorem CallInv.unregister_out (h : CallInv e)
    (hu : e.unregisterIfRegistered a = .ok e') : a ∉ e'.allAlarms := by
  rcases unregisterIfRegistered_ok hu with ⟨hreg, heq⟩ | ⟨hreg, hu⟩
  · rw [heq]
    intro hmem
    have := (h.reg.registered a).2 (Or.inl hmem)
    rw [hreg] at this
    simp at this
  · obtain ⟨i, hi, heq⟩ := unregisterAlarm_ok hu
    rw [heq, ← h.token.entryAt_cb hi]
    exact Finset.notMem_erase i.cb e.allAlarms

/-! ## The events of the simulator -/

theorem batch_of_idle (h : e.frame = none) : e.batch = [] := by
  rw [batch, h]

/-- The first callback of a batch starts, if there is one. -/
theorem runCallbacks_started {nowUs : Int} {cbs : List AlarmCB}
    (h : e.runCallbacks nowUs cbs = .ok e') :
    e'.running = cbs.head?.toList ∧ e'.batch = cbs.tail := by
  cases cbs with
  | nil =>
    obtain ⟨timer, sim, heq⟩ := updateTimer_fields h
    rw [heq]
    exact ⟨rfl, rfl⟩
  | cons cb rest =>
    obtain ⟨_, heq⟩ := onAlarm_ok h
    rw [heq]
    exact ⟨rfl, rfl⟩

theorem runNext_steps (now : Int) (armed : AlarmCB → Option Int) (cbs : List AlarmCB) :
    Steps ⟨now, armed, cbs⟩ (runNext cbs) ⟨now, armed, cbs.tail⟩ := by
  cases cbs with
  | nil => exact .nil _
  | cons cb rest => exact (Step.run rfl).single

/-- The clock is not moved past a deadline. -/
theorem CallInv.le_armedFor (h : CallInv e) (hf : e.frame = none) {ts : Nat}
    (hcan : e.sim.canAdvance ts = true) (ha : e.armedFor a = some d) :
    ((ts / 1000 : Nat) : Int) ≤ d := by
  obtain ⟨i, hi, _, hkey⟩ := (armedFor_iff h.run.toMapInv).1 ha
  obtain ⟨ev, hev, _, _, hcover⟩ := h.run.armed hf (List.ne_nil_of_mem hi)
  have hle := (Simulator.canAdvance_iff.1 hcan).2 ev hev
  rw [← hkey]
  exact (Int.ofNat_le.2 (Nat.div_le_div_right hle)).trans (hcover i hi)

theorem CallInv.pass_refines (h : CallInv e) (hf : e.frame = none) {ts : Nat}
    (hcan : e.sim.canAdvance ts = true) :
    Step e.scheduler (.pass (ts / 1000 : Nat)) ⟨(ts / 1000 : Nat), e.armedFor, []⟩ := by
  have hidle : e.scheduler.expired = [] := batch_of_idle hf
  have hle : e.nowUs ≤ ((ts / 1000 : Nat) : Int) :=
    Int.ofNat_le.2 (Nat.div_le_div_right (Simulator.canAdvance_iff.1 hcan).1)
  have hstep := Step.pass (s := e.scheduler) hidle hle fun a d ha => h.le_armedFor hf hcan ha
  rwa [hidle] at hstep

/-- The alarms that are due are the ones whose deadline is the present. -/
theorem CallInv.mem_due_iff (h : CallInv e) {ev : Event} (hcan : e.canTimeout ev = true) :
    a ∈ (e.dueAt ev).map MapEntry.cb ↔ e.armedFor a = some ((ev.ts / 1000 : Nat) : Int) := by
  obtain ⟨hf, _, hadv⟩ := canTimeout_iff.1 hcan
  have hdue : e.dueAt ev = e.alarmMap.filter fun i => i.key ≤ ((ev.ts / 1000 : Nat) : Int) :=
    h.run.sorted.takeWhile_eq_filter _
  rw [hdue, armedFor_iff h.run.toMapInv, List.mem_map]
  constructor
  · intro ⟨i, hi, hcb⟩
    obtain ⟨hmem, hle⟩ := List.mem_filter.1 hi
    have hge := h.le_armedFor hf hadv (armedFor_of_mem h.run.toMapInv hmem)
    exact ⟨i, hmem, hcb, le_antisymm (by simpa using hle) hge⟩
  · intro ⟨i, hi, hcb, hkey⟩
    exact ⟨i, List.mem_filter.2 ⟨hi, by simp [hkey]⟩, hcb⟩

/-- Starting `OnTimeout` takes the alarms that are due off the map. -/
theorem CallInv.armedFor_timeout (h : CallInv e) (h' : MapInv e') {ev : Event}
    (ht : e.timeout ev = .ok e') (a : AlarmCB) :
    e'.armedFor a = if a ∈ (e.dueAt ev).map MapEntry.cb then none else e.armedFor a := by
  have hcan := (timeout_ok ht).1
  have hadv := (canTimeout_iff.1 hcan).2.2
  have hmap := timeout_entries h ht
  refine Option.ext fun d => ?_
  rw [armedFor_iff h', hmap]
  constructor
  · intro ⟨i, hi, hcb, hkey⟩
    obtain ⟨hmem, hlt⟩ := List.mem_filter.1 hi
    have harmed := (armedFor_iff h.run.toMapInv).2 ⟨i, hmem, hcb, hkey⟩
    rw [if_neg, harmed]
    rw [h.mem_due_iff hcan, harmed]
    intro heq
    have hlt : ((ev.ts / 1000 : Nat) : Int) < i.key := by simpa using hlt
    have heq := Option.some.inj heq
    omega
  · intro ha
    split at ha
    · simp at ha
    · rename_i hnot
      obtain ⟨i, hi, hcb, hkey⟩ := (armedFor_iff h.run.toMapInv).1 ha
      have hge := h.le_armedFor (canTimeout_iff.1 hcan).1 hadv ha
      have hne : d ≠ (ev.ts / 1000 : Nat) := fun heq => hnot ((h.mem_due_iff hcan).2 (heq ▸ ha))
      refine ⟨i, List.mem_filter.2 ⟨hi, ?_⟩, hcb, hkey⟩
      rw [hkey]
      exact decide_eq_true (lt_of_le_of_ne hge (Ne.symm hne))

theorem CallInv.timeout_refines (h : CallInv e) (h' : MapInv e') {ev : Event}
    (ht : e.timeout ev = .ok e') : Steps e.scheduler (e.actions (.timeout ev)) e'.scheduler := by
  have hcan := (timeout_ok ht).1
  obtain ⟨hf, _, hadv⟩ := canTimeout_iff.1 hcan
  have hnodup : ((e.dueAt ev).map MapEntry.cb).Nodup :=
    (h.run.cbs_nodup).sublist ((List.takeWhile_sublist _).map MapEntry.cb)
  have harmed := funext (h.armedFor_timeout h' ht)
  have hnow : e'.nowUs = (ev.ts / 1000 : Nat) := by rw [nowUs, timeout_now ht]
  have hbatch : e'.batch = ((e.dueAt ev).map MapEntry.cb).tail := by
    rw [timeout_eq hcan] at ht
    exact (runCallbacks_started ht).2
  refine .cons (h.pass_refines hf hadv) (.cons (.expire rfl hnodup fun a => h.mem_due_iff hcan) ?_)
  rw [scheduler, hnow, harmed, hbatch]
  exact runNext_steps _ _ _

/-! ## The simulation -/

/-- One step of the engine is a sequence of actions of its scheduler. -/
theorem alarmStep_refines (h : CallInv e) (hd : DcheckHolds e op)
    (hs : alarmStep e op = .ok e') : Steps e.scheduler (e.actions op) e'.scheduler := by
  have h' := (h.step hd hs).run.toMapInv
  have hspares := h.sparesBatch hd hs
  cases op with
  | advance now =>
    obtain ⟨hf, hcan, heq⟩ := advance_ok hs
    have hstep := h.pass_refines hf hcan
    rw [← batch_of_idle hf] at hstep
    rw [heq]
    exact hstep.single
  | timeout ev => exact h.timeout_refines h' hs
  | delegateReturned =>
    obtain ⟨fr, hf, hr⟩ := callbackReturned_ok hs
    rw [returned_zero] at hr
    obtain ⟨hmap, _, hnow, _⟩ := runCallbacks_cases hr
    have hbatch : e.batch = fr.rest := by rw [batch, hf]
    have heq : e'.scheduler = ⟨e.nowUs, e.armedFor, e.batch.tail⟩ := by
      rw [scheduler, (runCallbacks_started hr).2, hbatch, nowUs, hnow]
      congr 1
      funext a
      rw [armedFor, entriesOf, hmap]
      rfl
    rw [heq]
    exact runNext_steps _ _ _
  | set a d =>
    have htouches := alarmStep_touches h.token rfl hs
    exact h.register_refines h' hspares htouches (registerAlarm_map (onLive_ok hs).2)
  | update a d =>
    have htouches := alarmStep_touches h.token rfl hs
    have hu := (onLive_ok hs).2
    by_cases ha : (e.alarms a).registered = true
    · have hle := (update_ok_cond h.run h.token ha hu).2.2
      rw [update_registered ha] at hu
      rw [actions, if_pos ha]
      exact h.move_refines h' hspares htouches hle hu
    · rw [update_unregistered ha] at hu
      rw [actions, if_neg ha]
      exact h.register_refines h' hspares htouches (registerAlarm_map hu)
  | cancel a =>
    have htouches := alarmStep_touches h.token rfl hs
    exact h.disarm_refines h' hspares htouches
      ((h.setDeadline a 0).unregister_out (onLive_ok hs).2)
  | destroy a =>
    have htouches := alarmStep_touches h.token rfl hs
    obtain ⟨e₁, hu, heq⟩ := destroy_ok (onLive_ok hs).2
    have hout := h.unregister_out hu
    rw [heq] at h' htouches ⊢
    exact h.disarm_refines h' hspares htouches hout

end Step

end QuicOnNs3.Alarm
