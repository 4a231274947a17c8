import QuicOnNs3.Alarm.Schedule

/-!
# Every alarm runs at its deadline

What the simulation gives on whole runs, with any operations between the events
and inside of the callbacks.  `armedBy` is the deadline that the calls of `Set` and
`Update` have given an alarm, up to a point of the run.  It knows the calls, the clock
and the delegates that have started, and nothing of the engine (`AlarmOp.arming`): a
deadline in the past counts as the present, and `Set` on an alarm that waits is ignored.

* `engine_refines_scheduler`: a run of the engine is one of the scheduler, and
  starts the same delegates in the same order.
* `delegates_run_on_time`: a delegate starts in the microsecond that its alarm is
  armed for, and once at most for each time that it was armed.
* `left_alone_runs_once`: an alarm that nobody touches until after its deadline has
  run once, at its deadline.
* `simulator_runs_all`: the simulator on its own runs all alarms, in the order of the
  map, and comes to an end.
-/

namespace QuicOnNs3.Alarm

open QuicOnNs3.EventQueue QuicOnNs3.Execution QuicOnNs3.Scheduling

open Ns3QuicAlarmEngine

/-- The deadline of `a` after a call at the time `now`, when it was `deadline` before. -/
def AlarmOp.arming (a : AlarmCB) (now : Int) (deadline : Option Int) : AlarmOp → Option Int
  | .set b d => if b = a ∧ deadline = none then some (max d now) else deadline
  | .update b d => if b = a then some (max d now) else deadline
  | .cancel b | .destroy b => if b = a then none else deadline
  | .advance _ | .timeout _ | .delegateReturned => deadline

/-- The deadline of `a` after a run, when it was `deadline` before.  A delegate that starts
uses it up. -/
def armedAfter (a : AlarmCB) (e : Ns3QuicAlarmEngine) (deadline : Option Int) :
    List AlarmOp → Option Int
  | [] => deadline
  | op :: ops =>
    match alarmStep e op with
    | .error _ => deadline
    | .ok e' =>
      armedAfter a e' (if a ∈ startedBy op e' then none else op.arming a e.nowUs deadline) ops

/-- The deadlines of the alarms, by the calls since the engine was built. -/
def armedBy (now₀ : Nat) (ops : List AlarmOp) (a : AlarmCB) : Option Int :=
  armedAfter a (init now₀) none ops

/-- In the run `ops` the delegate of `a` starts once, and the clock reads `d` then. -/
def RunsOnceAt (e : Ns3QuicAlarmEngine) (ops : List AlarmOp) (a : AlarmCB) (d : Int) : Prop :=
  ∃ before op after s s', ops = before ++ op :: after ∧ before.foldlM alarmStep e = .ok s ∧
    alarmStep s op = .ok s' ∧ a ∈ startedBy op s' ∧ s'.nowUs = d ∧
      a ∉ e.delegatesStarted before ∧ a ∉ s'.delegatesStarted after

/-- The simulator takes the engine from `e` to `e'`: no operation of `ops` is on an alarm. -/
def SimulatorRun (e : Ns3QuicAlarmEngine) (ops : List AlarmOp) (e' : Ns3QuicAlarmEngine) : Prop :=
  (∀ op ∈ ops, op.alarm = none) ∧ ops.foldlM alarmStep e = .ok e'

section Run

variable {e s e' : Ns3QuicAlarmEngine} {op : AlarmOp} {ops pre post : List AlarmOp} {a : AlarmCB}
  {d : Int} {deadlines : AlarmCB → Option Int} {cbs : List AlarmCB}

/-! ## Runs of the scheduler -/

theorem runActions_cons (hs : alarmStep e op = .ok s) :
    e.runActions (op :: ops) = e.actions op ++ s.runActions ops := by
  rw [runActions, hs]

theorem delegatesStarted_cons (hs : alarmStep e op = .ok s) :
    e.delegatesStarted (op :: ops) = startedBy op s ++ s.delegatesStarted ops := by
  rw [delegatesStarted, hs]

theorem CallInv.after (h : CallInv e) (hd : Each alarmStep DcheckHolds e ops)
    (hrun : ops.foldlM alarmStep e = .ok e') : CallInv e' :=
  hd.run_keeps (fun _ _ _ hi hc => hi.step hc) h hrun

theorem run_refines (h : CallInv e) (hd : Each alarmStep DcheckHolds e ops)
    (hrun : ops.foldlM alarmStep e = .ok e') :
    Steps e.scheduler (e.runActions ops) e'.scheduler := by
  induction ops generalizing e with
  | nil =>
    obtain rfl := run_nil_ok_iff.1 hrun
    exact .nil _
  | cons op ops ih =>
    obtain ⟨s, hs, hrest⟩ := run_cons_ok_iff.1 hrun
    rw [runActions_cons hs]
    exact (alarmStep_refines h hd.1 hs).append (ih (h.step hd.1 hs) (hd.2 s hs) hrest)

theorem tracks_init (now₀ : Nat) : Tracks (init now₀).scheduler fun _ => none where
  nodup := List.nodup_nil
  expired := by simp [scheduler, init, batch]
  armed := by simp [scheduler, init, armedFor, entriesOf]
  out := by simp [scheduler, init, batch]
  ahead := by simp [scheduler, init, armedFor, entriesOf]

/-! ## The delegates -/

theorem runs_runNext (cbs : List AlarmCB) :
    (runNext cbs).filterMap SchedulerAction.runs = cbs.head?.toList := by
  cases cbs <;> rfl

theorem runs_registerActions (e : Ns3QuicAlarmEngine) (a : AlarmCB) (d : Int) :
    (e.registerActions a d).filterMap SchedulerAction.runs = [] := by
  unfold registerActions
  split <;> rfl

/-- The delegates that a step starts. -/
theorem runs_actions (hs : alarmStep e op = .ok s) :
    (e.actions op).filterMap SchedulerAction.runs = startedBy op s := by
  cases op with
  | timeout ev =>
    have ht := hs
    rw [alarmStep, timeout_eq (timeout_ok hs).1] at ht
    exact (runs_runNext _).trans (runCallbacks_started ht).1.symm
  | delegateReturned =>
    obtain ⟨fr, hf, hr⟩ := callbackReturned_ok hs
    rw [returned_zero] at hr
    have hbatch : e.batch = fr.rest := by rw [batch, hf]
    rw [actions, hbatch]
    exact (runs_runNext _).trans (runCallbacks_started hr).1.symm
  | advance now => rfl
  | set a d => exact runs_registerActions e a d
  | update a d =>
    by_cases ha : (e.alarms a).registered = true
    · rw [actions, if_pos ha]
      rfl
    · rw [actions, if_neg ha]
      exact runs_registerActions e a d
  | cancel a => rfl
  | destroy a => rfl

theorem runs_runActions (hrun : ops.foldlM alarmStep e = .ok e') :
    (e.runActions ops).filterMap SchedulerAction.runs = e.delegatesStarted ops := by
  induction ops generalizing e with
  | nil => rfl
  | cons op ops ih =>
    obtain ⟨s, hs, hrest⟩ := run_cons_ok_iff.1 hrun
    rw [runActions_cons hs, delegatesStarted_cons hs, List.filterMap_append, runs_actions hs,
      ih hrest]

theorem runNext_of_mem (cbs : List AlarmCB)
    (ha : a ∈ (runNext cbs).filterMap SchedulerAction.runs) : runNext cbs = [.run a] := by
  cases cbs with
  | nil => simp [runNext] at ha
  | cons cb rest =>
    obtain rfl : a = cb := by simpa [runNext, SchedulerAction.runs] using ha
    rfl

/-- A step starts a delegate last, after actions that arm and disarm nothing. -/
theorem actions_of_started (hs : alarmStep e op = .ok s) (ha : a ∈ startedBy op s)
    (deadlines : AlarmCB → Option Int) :
    ∃ xs, e.actions op = xs ++ [.run a] ∧ xs.foldl ledger deadlines = deadlines := by
  cases op with
  | timeout ev =>
    rw [← runs_actions hs] at ha
    have hnext := runNext_of_mem ((e.dueAt ev).map MapEntry.cb) ha
    refine ⟨[.pass (ev.ts / 1000 : Nat), .expire ((e.dueAt ev).map MapEntry.cb)], ?_, rfl⟩
    unfold actions
    dsimp only
    rw [hnext]
    rfl
  | delegateReturned =>
    rw [← runs_actions hs] at ha
    exact ⟨[], runNext_of_mem _ ha, rfl⟩
  | advance now => simp [startedBy] at ha
  | set a d => simp [startedBy] at ha
  | update a d => simp [startedBy] at ha
  | cancel a => simp [startedBy] at ha
  | destroy a => simp [startedBy] at ha

theorem started_on_time (h : CallInv e) (htracks : Tracks e.scheduler deadlines)
    (hd : DcheckHolds e op) (hs : alarmStep e op = .ok s) (ha : a ∈ startedBy op s) :
    deadlines a = some s.nowUs := by
  obtain ⟨xs, hxs, hsame⟩ := actions_of_started hs ha deadlines
  have hsteps := alarmStep_refines h hd hs
  rw [hxs] at hsteps
  have hdue := hsteps.run_on_time htracks
  rwa [hsame] at hdue

/-- A delegate that starts uses its deadline up. -/
theorem ledger_started (hs : alarmStep e op = .ok s) (ha : a ∈ startedBy op s) :
    (e.actions op).foldl ledger deadlines a = none := by
  obtain ⟨xs, hxs, _⟩ := actions_of_started hs ha deadlines
  rw [hxs, List.foldl_concat]
  exact Function.update_self ..

/-- An alarm without a deadline is in no container of the engine. -/
theorem CallInv.out_of_none (h : CallInv e) (htracks : Tracks e.scheduler deadlines)
    (hnone : deadlines a = none) : a ∉ e.allAlarms ∧ (e.alarms a).registered = false := by
  have hbatch : a ∉ e.batch := by
    intro hmem
    have hdue := htracks.expired a hmem
    rw [hnone] at hdue
    simp at hdue
  have hout : a ∉ e.allAlarms := by
    intro hmem
    obtain ⟨i, hi, hcb⟩ := h.run.toMapInv.exists_entry hmem
    have harmed := htracks.armed a hbatch
    rw [hnone, ← hcb] at harmed
    exact absurd (harmed.trans (armedFor_of_mem h.run.toMapInv hi)) (by simp)
  refine ⟨hout, ?_⟩
  rw [← Bool.not_eq_true, h.reg.registered a]
  exact not_or.2 ⟨hout, hbatch⟩

/-- Registering an alarm that has no deadline. -/
theorem ledger_register (hout : a ∉ e.allAlarms) (d : Int) :
    (e.registerActions a d).foldl ledger deadlines a = some (max d e.nowUs) := by
  have hclamp : e.clamp d = max d e.nowUs := by
    unfold clamp
    split_ifs <;> omega
  rw [registerActions, if_neg hout, hclamp]
  exact Function.update_self ..

/-- Registering an alarm that has no deadline, for a time that has not passed. -/
theorem ledger_registerActions (hout : a ∉ e.allAlarms) (hle : e.nowUs ≤ d) :
    (e.registerActions a d).foldl ledger deadlines a = some d := by
  rw [ledger_register hout, max_eq_left hle]

/-! ## Alarms that are left alone -/

theorem client_runNext {x : SchedulerAction AlarmCB Int} (hx : x ∈ runNext cbs)
    (hc : x.client = some a) : x.runs = some a := by
  cases cbs with
  | nil => simp [runNext] at hx
  | cons cb rest =>
    obtain rfl : x = .run cb := by simpa [runNext] using hx
    exact hc

theorem client_registerActions {x : SchedulerAction AlarmCB Int} {b : AlarmCB}
    (hx : x ∈ e.registerActions b d) : x.client = some b := by
  unfold registerActions at hx
  split at hx
  · simp at hx
  · obtain rfl := List.mem_singleton.1 hx
    rfl

/-- What a step does to an alarm that its operation is not on: it may start its
delegate. -/
theorem client_actions {x : SchedulerAction AlarmCB Int} (hop : op.alarm ≠ some a)
    (hx : x ∈ e.actions op) (hc : x.client = some a) : x.runs = some a := by
  cases op with
  | advance now =>
    obtain rfl := List.mem_singleton.1 hx
    simp [SchedulerAction.client] at hc
  | timeout ev =>
    rcases List.mem_cons.1 hx with rfl | hx
    · simp [SchedulerAction.client] at hc
    rcases List.mem_cons.1 hx with rfl | hx
    · simp [SchedulerAction.client] at hc
    exact client_runNext hx hc
  | delegateReturned => exact client_runNext hx hc
  | set b d => exact absurd ((client_registerActions hx).symm.trans hc) hop
  | update b d =>
    by_cases hb : (e.alarms b).registered = true
    · rw [actions, if_pos hb] at hx
      obtain rfl := List.mem_singleton.1 hx
      exact absurd hc hop
    · rw [actions, if_neg hb] at hx
      exact absurd ((client_registerActions hx).symm.trans hc) hop
  | cancel b =>
    obtain rfl := List.mem_singleton.1 hx
    exact absurd hc hop
  | destroy b =>
    obtain rfl := List.mem_singleton.1 hx
    exact absurd hc hop

/-- An alarm that a step does not touch and does not run keeps its deadline. -/
theorem ledger_actions (deadlines : AlarmCB → Option Int) (hs : alarmStep e op = .ok s)
    (hop : op.alarm ≠ some a) (ha : a ∉ startedBy op s) :
    (e.actions op).foldl ledger deadlines a = deadlines a := by
  refine foldl_ledger_of_ne fun x hx hc => ha ?_
  rw [← runs_actions hs]
  exact List.mem_filterMap.2 ⟨x, hx, client_actions hop hx hc⟩

/-! ## The deadlines by the calls -/

/-- An alarm with an entry has a deadline. -/
theorem CallInv.ne_none_of_mem (h : CallInv e) (htracks : Tracks e.scheduler deadlines)
    (ha : a ∈ e.allAlarms) : deadlines a ≠ none := by
  intro hnone
  exact (h.out_of_none htracks hnone).1 ha

/-- The calls give an alarm the deadline that it has in the scheduler. -/
theorem arming_eq_ledger (h : CallInv e) (htracks : Tracks e.scheduler deadlines)
    (hd : DcheckHolds e op) (hs : alarmStep e op = .ok s) (a : AlarmCB) :
    (if a ∈ startedBy op s then none else op.arming a e.nowUs (deadlines a)) =
      (e.actions op).foldl ledger deadlines a := by
  by_cases hstarted : a ∈ startedBy op s
  · rw [if_pos hstarted, ledger_started hs hstarted]
  rw [if_neg hstarted]
  by_cases hop : op.alarm = some a
  · have hspares := h.sparesBatch hd hs
    cases op with
    | set b d =>
      obtain rfl := Option.some.inj hop
      by_cases ha : b ∈ e.allAlarms
      · rw [actions, registerActions, if_pos ha, AlarmOp.arming,
          if_neg fun hnone => h.ne_none_of_mem htracks ha hnone.2]
        rfl
      · have hnone : deadlines b = none :=
          (htracks.armed b hspares).trans (armedFor_eq_none h.run.toMapInv ha)
        rw [actions, ledger_register ha, AlarmOp.arming, if_pos ⟨rfl, hnone⟩]
    | update b d =>
      obtain rfl := Option.some.inj hop
      rw [AlarmOp.arming, if_pos rfl]
      by_cases hreg : (e.alarms b).registered = true
      · have hle := (update_ok_cond h.run h.token hreg (onLive_ok hs).2).2.2
        rw [actions, if_pos hreg, max_eq_left hle]
        exact (Function.update_self b (some d) deadlines).symm
      · have hout : b ∉ e.allAlarms := fun hmem => hreg ((h.reg.registered b).2 (Or.inl hmem))
        rw [actions, if_neg hreg, ledger_register hout]
    | cancel b =>
      obtain rfl := Option.some.inj hop
      rw [AlarmOp.arming, if_pos rfl]
      exact (Function.update_self b none deadlines).symm
    | destroy b =>
      obtain rfl := Option.some.inj hop
      rw [AlarmOp.arming, if_pos rfl]
      exact (Function.update_self b none deadlines).symm
    | _ => simp [AlarmOp.alarm] at hop
  · rw [ledger_actions deadlines hs hop hstarted]
    cases op with
    | set b d => exact if_neg fun hb => hop (congrArg some hb.1)
    | update b d => exact if_neg fun hb => hop (congrArg some hb)
    | cancel b => exact if_neg fun hb => hop (congrArg some hb)
    | destroy b => exact if_neg fun hb => hop (congrArg some hb)
    | _ => rfl

theorem armedAfter_eq (h : CallInv e) (htracks : Tracks e.scheduler deadlines)
    (hd : Each alarmStep DcheckHolds e ops) (hrun : ops.foldlM alarmStep e = .ok e')
    (a : AlarmCB) :
    armedAfter a e (deadlines a) ops = (e.runActions ops).foldl ledger deadlines a := by
  induction ops generalizing e deadlines with
  | nil => rfl
  | cons op ops ih =>
    obtain ⟨s, hs, hrest⟩ := run_cons_ok_iff.1 hrun
    have hrec := ih (h.step hd.1 hs) (htracks.steps (alarmStep_refines h hd.1 hs))
      (hd.2 s hs) hrest
    rw [runActions_cons hs, List.foldl_append, ← hrec, ← arming_eq_ledger h htracks hd.1 hs,
      armedAfter, hs]

theorem tracks_armedBy {now₀ : Nat} (hd : Each alarmStep DcheckHolds (init now₀) ops)
    (hrun : ops.foldlM alarmStep (init now₀) = .ok e) :
    Tracks e.scheduler (armedBy now₀ ops) := by
  have heq : armedBy now₀ ops = ((init now₀).runActions ops).foldl ledger fun _ => none := by
    funext a
    exact armedAfter_eq (callInv_init now₀) (tracks_init now₀) hd hrun a
  rw [heq]
  exact (tracks_init now₀).steps (run_refines (callInv_init now₀) hd hrun)

/-- An alarm without a deadline that nobody arms is not run. -/
theorem not_started (h : CallInv e) (htracks : Tracks e.scheduler deadlines)
    (hd : Each alarmStep DcheckHolds e ops) (hrun : ops.foldlM alarmStep e = .ok e')
    (hnone : deadlines a = none) (halone : ∀ op ∈ ops, op.alarm ≠ some a) :
    a ∉ e.delegatesStarted ops := by
  induction ops generalizing e deadlines with
  | nil => simp [delegatesStarted]
  | cons op ops ih =>
    obtain ⟨s, hs, hrest⟩ := run_cons_ok_iff.1 hrun
    have hstarted : a ∉ startedBy op s := by
      intro ha
      have hdue := started_on_time h htracks hd.1 hs ha
      rw [hnone] at hdue
      simp at hdue
    have hop := halone op (List.mem_cons_self ..)
    have hkept := (ledger_actions deadlines hs hop hstarted).trans hnone
    rw [delegatesStarted_cons hs, List.mem_append, not_or]
    exact ⟨hstarted, ih (h.step hd.1 hs) (htracks.steps (alarmStep_refines h hd.1 hs))
      (hd.2 s hs) hrest hkept fun o ho => halone o (List.mem_cons_of_mem _ ho)⟩

/-- An alarm with a deadline that has passed at the end, and that nobody touches. -/
theorem runsOnceAt_of_alone (h : CallInv e) (htracks : Tracks e.scheduler deadlines)
    (hd : Each alarmStep DcheckHolds e ops) (hrun : ops.foldlM alarmStep e = .ok e')
    (hdue : deadlines a = some d) (halone : ∀ op ∈ ops, op.alarm ≠ some a)
    (hlate : d < e'.nowUs) : RunsOnceAt e ops a d := by
  induction ops generalizing e deadlines with
  | nil =>
    obtain rfl := run_nil_ok_iff.1 hrun
    exact absurd hlate (not_lt.2 (htracks.le_deadline hdue))
  | cons op ops ih =>
    obtain ⟨s, hs, hrest⟩ := run_cons_ok_iff.1 hrun
    have hop := halone op (List.mem_cons_self ..)
    have halone := fun o ho => halone o (List.mem_cons_of_mem op ho)
    have hs' := h.step hd.1 hs
    have htracks' := htracks.steps (alarmStep_refines h hd.1 hs)
    by_cases ha : a ∈ startedBy op s
    · have hnow := (started_on_time h htracks hd.1 hs ha).symm.trans hdue
      exact ⟨[], op, ops, e, s, rfl, rfl, hs, ha, Option.some.inj hnow, by simp [delegatesStarted],
        not_started hs' htracks' (hd.2 s hs) hrest (ledger_started hs ha) halone⟩
    · have hkept := (ledger_actions deadlines hs hop ha).trans hdue
      obtain ⟨post₁, op', post₂, s₁, s₂, rfl, hpost₁, hrest⟩ :=
        ih hs' htracks' (hd.2 s hs) hrest hkept halone
      refine ⟨op :: post₁, op', post₂, s₁, s₂, rfl, run_cons_ok_iff.2 ⟨s, hs, hpost₁⟩, hrest.1,
        hrest.2.1, hrest.2.2.1, ?_, hrest.2.2.2.2⟩
      rw [delegatesStarted_cons hs, List.mem_append, not_or]
      exact ⟨ha, hrest.2.2.2.1⟩

/-! ## Counting -/

theorem countP_arms_runNext (cbs : List AlarmCB) (a : AlarmCB) :
    (runNext cbs).countP (fun x => x.arms = some a) = 0 := by
  cases cbs with
  | nil => rfl
  | cons cb rest => simp [runNext, SchedulerAction.arms]

theorem countP_arms_actions (e : Ns3QuicAlarmEngine) (op : AlarmOp) (a : AlarmCB) :
    (e.actions op).countP (fun x => x.arms = some a) ≤ if op.arms = some a then 1 else 0 := by
  have hregister : ∀ b t, (e.registerActions b t).countP (fun x => x.arms = some a) ≤
      if b = a then 1 else 0 := by
    intro b t
    unfold registerActions
    split
    · exact Nat.zero_le _
    · simp [SchedulerAction.arms]
  cases op with
  | timeout ev =>
    have hnext := countP_arms_runNext ((e.dueAt ev).map MapEntry.cb) a
    rw [actions, List.countP_cons_of_neg (by simp [SchedulerAction.arms]),
      List.countP_cons_of_neg (by simp [SchedulerAction.arms]), hnext]
    exact Nat.zero_le _
  | delegateReturned => exact (countP_arms_runNext e.batch a).trans_le (Nat.zero_le _)
  | advance now => simp [actions, SchedulerAction.arms]
  | set b t => simpa [actions, AlarmOp.arms] using hregister b t
  | update b t =>
    by_cases hb : (e.alarms b).registered = true
    · simp [actions, if_pos hb, SchedulerAction.arms, AlarmOp.arms]
    · rw [actions, if_neg hb]
      simpa [AlarmOp.arms] using hregister b t
  | cancel b => simp [actions, SchedulerAction.arms]
  | destroy b => simp [actions, SchedulerAction.arms]

theorem countP_arms_runActions (hrun : ops.foldlM alarmStep e = .ok e') :
    (e.runActions ops).countP (fun x => x.arms = some a) ≤
      ops.countP fun op => op.arms = some a := by
  induction ops generalizing e with
  | nil => exact Nat.zero_le _
  | cons op ops ih =>
    obtain ⟨s, hs, hrest⟩ := run_cons_ok_iff.1 hrun
    rw [runActions_cons hs, List.countP_append, List.countP_cons, Nat.add_comm]
    have hop := countP_arms_actions e op a
    have hops := ih hrest
    simp only [decide_eq_true_eq]
    omega

/-- The delegates that start are the clients that run. -/
theorem count_delegatesStarted (hrun : ops.foldlM alarmStep e = .ok e') (a : AlarmCB) :
    (e.delegatesStarted ops).count a =
      (e.runActions ops).countP fun x => x.runs = some a := by
  rw [← runs_runActions hrun, List.count, List.countP_filterMap]
  refine List.countP_congr fun x _ => ?_
  cases x.runs <;> simp

/-! ## The simulator on its own -/

/-- The alarms that have started, are in the batch or are in the map, in this order. -/
theorem started_append_waiting (hop : op.alarm = none)
    (hs : alarmStep e op = .ok s) :
    startedBy op s ++ (s.batch ++ s.alarmMap.map MapEntry.cb) =
      e.batch ++ e.alarmMap.map MapEntry.cb := by
  cases op with
  | advance now =>
    obtain ⟨_, _, rfl⟩ := advance_ok hs
    rfl
  | timeout ev =>
    obtain ⟨hf, _, _⟩ := canTimeout_iff.1 (timeout_ok hs).1
    have ht := hs
    rw [alarmStep, timeout_eq (timeout_ok hs).1] at ht
    obtain ⟨hmap, _, _, hbatch⟩ := runCallbacks_cases ht
    show s.running ++ _ = _
    rw [← List.append_assoc, hbatch, hmap, batch_of_idle hf, List.nil_append, ← List.map_append]
    exact congrArg _ List.takeWhile_append_dropWhile
  | delegateReturned =>
    obtain ⟨fr, hf, hr⟩ := callbackReturned_ok hs
    rw [returned_zero] at hr
    obtain ⟨hmap, _, _, hbatch⟩ := runCallbacks_cases hr
    show s.running ++ _ = _
    rw [← List.append_assoc, hbatch, hmap, batch, hf]
  | set b t => simp [AlarmOp.alarm] at hop
  | update b t => simp [AlarmOp.alarm] at hop
  | cancel b => simp [AlarmOp.alarm] at hop
  | destroy b => simp [AlarmOp.alarm] at hop

theorem SimulatorRun.nil (e : Ns3QuicAlarmEngine) : SimulatorRun e [] e :=
  ⟨by simp, rfl⟩

theorem SimulatorRun.cons (hop : op.alarm = none) (hs : alarmStep e op = .ok s)
    (h : SimulatorRun s ops e') : SimulatorRun e (op :: ops) e' :=
  ⟨List.forall_mem_cons.2 ⟨hop, h.1⟩, run_cons_ok_iff.2 ⟨s, hs, h.2⟩⟩

theorem SimulatorRun.append (h : SimulatorRun e pre s) (h' : SimulatorRun s post e') :
    SimulatorRun e (pre ++ post) e' := by
  refine ⟨List.forall_mem_append.2 ⟨h.1, h'.1⟩, ?_⟩
  rw [List.foldlM_append]
  exact bind_ok_iff.2 ⟨s, h.2, h'.2⟩

theorem SimulatorRun.started_append_waiting (h : SimulatorRun e ops e') :
    e.delegatesStarted ops ++ (e'.batch ++ e'.alarmMap.map MapEntry.cb) =
      e.batch ++ e.alarmMap.map MapEntry.cb := by
  obtain ⟨hops, hrun⟩ := h
  induction ops generalizing e with
  | nil =>
    obtain rfl := run_nil_ok_iff.1 hrun
    rfl
  | cons op ops ih =>
    obtain ⟨s, hs, hrest⟩ := run_cons_ok_iff.1 hrun
    obtain ⟨hop, hops⟩ := List.forall_mem_cons.1 hops
    rw [delegatesStarted_cons hs, List.append_assoc, ih hops hrest,
      Alarm.started_append_waiting hop hs]

/-- The next callback starts, or `OnTimeout` returns: no assertion fails, and no alarm of
the batch has been destroyed. -/
theorem runCallbacks_succeeds (hreg : RegInv e cbs) (hkeys : ∀ i ∈ e.alarmMap, e.nowUs ≤ i.key)
    (nowUs : Int) : ∃ s, e.runCallbacks nowUs cbs = .ok s := by
  cases cbs with
  | nil =>
    cases hm : e.alarmMap with
    | nil =>
      unfold runCallbacks updateTimer
      simp only [hm]
      exact ⟨_, rfl⟩
    | cons i m =>
      have hne : ({ e with frame := none } : Ns3QuicAlarmEngine).alarmMap ≠ [] := by simp [hm]
      obtain ⟨s, hs, _⟩ := updateTimer_succeeds hne hkeys
      exact ⟨s, hs⟩
  | cons cb rest =>
    have halive := (hreg.sound cb ((hreg.registered cb).2 (Or.inr (List.mem_cons_self ..)))).2
    exact ⟨_, if_pos halive⟩

/-- The running callback returns, and the next one starts or `OnTimeout` ends. -/
theorem delegateReturned_succeeds (h : CallInv e) {fr : TimeoutFrame} (hf : e.frame = some fr) :
    ∃ s, alarmStep e .delegateReturned = .ok s ∧ e.runCallbacks fr.nowUs fr.rest = .ok s ∧
      CallInv s := by
  have hreg := h.reg
  rw [batch, hf] at hreg
  obtain ⟨s, hs⟩ := runCallbacks_succeeds hreg h.run.keys_ge fr.nowUs
  have hstep : alarmStep e .delegateReturned = .ok s := by
    rw [alarmStep, callbackReturned, hf]
    exact (returned_zero fr).trans hs
  exact ⟨s, hstep, hs, h.step (by trivial : DcheckHolds e .delegateReturned) hstep⟩

/-- A call of `OnTimeout` whose callbacks just return. -/
theorem callbacks_return (h : CallInv e) (hset : e.frame = none → TimerSet e) :
    ∃ ops e', SimulatorRun e ops e' ∧ CallInv e' ∧ e'.frame = none ∧
      e'.alarmMap = e.alarmMap ∧ TimerSet e' := by
  cases hf : e.frame with
  | none => exact ⟨[], e, .nil e, h, hf, rfl, hset hf⟩
  | some fr =>
    induction hrest : fr.rest generalizing e fr with
    | nil =>
      obtain ⟨s, hstep, hs, hinv⟩ := delegateReturned_succeeds h hf
      rw [hrest] at hs
      have hret : s.frame = none := by
        obtain ⟨timer, sim, heq⟩ := updateTimer_fields hs
        rw [heq]
      exact ⟨_, s, .cons rfl hstep (.nil s), hinv, hret, (runCallbacks_cases hs).1,
        runCallbacks_timerSet h.run.sole hs hret⟩
    | cons cb rest ih =>
      obtain ⟨s, hstep, hs, hinv⟩ := delegateReturned_succeeds h hf
      rw [hrest] at hs
      have hframe : s.frame = some ⟨fr.nowUs, cb, rest⟩ := by
        obtain ⟨_, heq⟩ := onAlarm_ok hs
        rw [heq]
      obtain ⟨ops, e', hrun, hinv, hret, hmap, htimer⟩ := ih hinv (by simp [hframe]) _ hframe rfl
      exact ⟨_, e', .cons rfl hstep hrun, hinv, hret, hmap.trans (runCallbacks_cases hs).1,
        htimer⟩

/-- The simulator can execute the event of the timer, and then `OnTimeout` runs to its
end.  It takes the entries up to its time off the map. -/
theorem event_runs (h : CallInv e) (hf : e.frame = none) {ev : Event} (hev : ev ∈ e.sim.pending) :
    ∃ ops e', SimulatorRun e ops e' ∧ CallInv e' ∧ e'.frame = none ∧ TimerSet e' ∧
      e'.alarmMap = e.alarmMap.filter fun i => decide (((ev.ts / 1000 : Nat) : Int) < i.key) := by
  have hcan : e.canTimeout ev = true := by
    refine canTimeout_iff.2 ⟨hf, hev, Simulator.canAdvance_iff.2 ⟨h.run.pending_ge ev hev, ?_⟩⟩
    rcases h.run.sole with hnone | ⟨ev', hone, _⟩
    · simp [hnone] at hev
    · rw [hone] at hev ⊢
      intro ev'' hev''
      rw [List.mem_singleton.1 hev, List.mem_singleton.1 hev'']
  have hreg := h.reg
  rw [batch_of_idle hf] at hreg
  have hkeys : ∀ i ∈ (e.drainedAt ev).alarmMap, (e.drainedAt ev).nowUs ≤ i.key :=
    fun i hi => (h.run.sorted.lt_of_mem_dropWhile hi).le
  obtain ⟨s, hs⟩ := runCallbacks_succeeds (hreg.drainedAt ev) hkeys (ev.ts / 1000 : Nat)
  have hstep : alarmStep e (.timeout ev) = .ok s := (timeout_eq hcan).trans hs
  obtain ⟨ops, e', hrun, hinv, hret, hsame, htimer⟩ :=
    callbacks_return (h.step (by trivial : DcheckHolds e (.timeout ev)) hstep)
      fun hret => timeout_timerSet h hstep hret
  exact ⟨_, e', .cons rfl hstep hrun, hinv, hret, htimer, hsame.trans (timeout_entries h hstep)⟩

/-- With the timer at the first key the simulator runs all alarms. -/
theorem timerSet_runs_all (h : CallInv e) (hf : e.frame = none) (hset : TimerSet e) :
    ∃ ops e', SimulatorRun e ops e' ∧ e'.frame = none ∧ e'.alarmMap = [] ∧
      e'.sim.pending = [] := by
  induction hn : e.alarmMap.length using Nat.strong_induction_on generalizing e with
  | _ n ih =>
    cases hm : e.alarmMap with
    | nil => exact ⟨[], e, .nil e, hf, hm, hset.1 hm⟩
    | cons i m =>
      obtain ⟨uid, ts, hpending, _, hkey⟩ := hset.2 i m hm
      obtain ⟨ops, s, hrun, hinv, hret, htimer, hmap⟩ :=
        event_runs h hf (hpending ▸ List.mem_singleton_self _)
      -- the first entry is due
      have hlt : s.alarmMap.length < n := by
        rw [hmap, hm, List.filter_cons_of_neg (by simp [hkey]), ← hn, hm, List.length_cons]
        exact Nat.lt_succ_of_le (List.length_filter_le _ m)
      obtain ⟨ops', e', hrun', hend⟩ := ih _ hlt hinv hret htimer rfl
      exact ⟨_, e', hrun.append hrun', hend⟩

/-- The simulator runs all alarms, perhaps after an event that is too early. -/
theorem pending_runs_all (h : CallInv e) (hf : e.frame = none) :
    ∃ ops e', SimulatorRun e ops e' ∧ e'.frame = none ∧ e'.alarmMap = [] ∧
      e'.sim.pending = [] := by
  cases hp : e.sim.pending with
  | nil =>
    have hm : e.alarmMap = [] := by
      by_contra hne
      obtain ⟨ev, hev, _⟩ := h.run.armed hf hne
      simp [hp] at hev
    exact ⟨[], e, .nil e, hf, hm, hp⟩
  | cons ev _ =>
    obtain ⟨ops, s, hrun, hs, hret, htimer, _⟩ := event_runs h hf (hp ▸ List.mem_cons_self ..)
    obtain ⟨ops', e', hrun', hend⟩ := timerSet_runs_all hs hret htimer
    exact ⟨_, e', hrun.append hrun', hend⟩

end Run

/-! ## Whole runs -/

/-- A run of the engine, with its alarms, is a run of the scheduler.  It runs the same
alarms in the same order. -/
theorem engine_refines_scheduler (now₀ : Nat) {ops : List AlarmOp} {e : Ns3QuicAlarmEngine}
    (hd : Each alarmStep DcheckHolds (init now₀) ops)
    (hrun : ops.foldlM alarmStep (init now₀) = .ok e) :
    Steps (init now₀).scheduler ((init now₀).runActions ops) e.scheduler ∧
      ((init now₀).runActions ops).filterMap SchedulerAction.runs =
        (init now₀).delegatesStarted ops :=
  ⟨run_refines (callInv_init now₀) hd hrun, runs_runActions hrun⟩

/-- Two alarms for 5 µs.  In the one call of `OnTimeout` both callbacks arm their alarm
again, the second one for an earlier time. -/
def bothArmAgain : List AlarmOp :=
  [.set 1 5, .set 2 5, .timeout ⟨0, 5000⟩, .set 1 9, .delegateReturned, .set 2 7,
    .delegateReturned]

/-- The calls of `OnTimeout` for these times, and another microsecond. -/
def bothRunAgain : List AlarmOp :=
  [.timeout ⟨3, 7000⟩, .delegateReturned, .timeout ⟨4, 9000⟩, .delegateReturned,
    .advance 10000]

theorem bothRunAgain_dcheck :
    Each alarmStep DcheckHolds (init 0) (bothArmAgain ++ bothRunAgain) := by
  decide

theorem bothArmAgain_dcheck : Each alarmStep DcheckHolds (init 0) bothArmAgain :=
  ((each_append rfl bothRunAgain).1 bothRunAgain_dcheck).1

theorem engine_refines_scheduler_bothRunAgain :
    ∃ e, (bothArmAgain ++ bothRunAgain).foldlM alarmStep (init 0) = .ok e ∧
      Steps (init 0).scheduler ((init 0).runActions (bothArmAgain ++ bothRunAgain))
        e.scheduler ∧
      ((init 0).runActions (bothArmAgain ++ bothRunAgain)).filterMap SchedulerAction.runs =
        (init 0).delegatesStarted (bothArmAgain ++ bothRunAgain) :=
  ⟨_, rfl, engine_refines_scheduler 0 bothRunAgain_dcheck rfl⟩

/-- Every delegate starts in the microsecond that its alarm is armed for, and no alarm
runs more often than it is armed. -/
theorem delegates_run_on_time (now₀ : Nat) {ops : List AlarmOp} {e : Ns3QuicAlarmEngine}
    (hd : Each alarmStep DcheckHolds (init now₀) ops)
    (hrun : ops.foldlM alarmStep (init now₀) = .ok e) (a : AlarmCB) :
    (∀ pre op post s s', ops = pre ++ op :: post → pre.foldlM alarmStep (init now₀) = .ok s →
        alarmStep s op = .ok s' → a ∈ startedBy op s' →
          armedBy now₀ pre a = some s'.nowUs) ∧
      ((init now₀).delegatesStarted ops).count a ≤ ops.countP fun op => op.arms = some a := by
  constructor
  · intro pre op post s s' hops hpre hs ha
    rw [hops] at hd
    obtain ⟨hdpre, hdop⟩ := (each_append hpre _).1 hd
    exact started_on_time ((callInv_init now₀).after hdpre hpre) (tracks_armedBy hdpre hpre)
      hdop.1 hs ha
  · rw [count_delegatesStarted hrun]
    have hsteps := run_refines (callInv_init now₀) hd hrun
    exact (hsteps.runs_le_arms (tracks_init now₀) rfl).trans (countP_arms_runActions hrun)

theorem delegates_run_on_time_bothRunAgain :
    (∀ pre op post s s', bothArmAgain ++ bothRunAgain = pre ++ op :: post →
        pre.foldlM alarmStep (init 0) = .ok s → alarmStep s op = .ok s' → 2 ∈ startedBy op s' →
          armedBy 0 pre 2 = some s'.nowUs) ∧
      ((init 0).delegatesStarted (bothArmAgain ++ bothRunAgain)).count 2 ≤
        (bothArmAgain ++ bothRunAgain).countP fun op => op.arms = some 2 :=
  delegates_run_on_time 0 bothRunAgain_dcheck rfl 2

/-- An alarm that is armed for `d`, and that nobody touches until the clock has passed
`d`, has run once, in the microsecond `d`. -/
theorem left_alone_runs_once (now₀ : Nat) {pre post : List AlarmOp} {e e' : Ns3QuicAlarmEngine}
    (hd : Each alarmStep DcheckHolds (init now₀) (pre ++ post))
    (hpre : pre.foldlM alarmStep (init now₀) = .ok e)
    (hpost : post.foldlM alarmStep e = .ok e') {a : AlarmCB} {d : Int}
    (harmed : armedBy now₀ pre a = some d) (halone : ∀ op ∈ post, op.alarm ≠ some a)
    (hlate : d < e'.nowUs) : RunsOnceAt e post a d := by
  obtain ⟨hdpre, hdpost⟩ := (each_append hpre post).1 hd
  exact runsOnceAt_of_alone ((callInv_init now₀).after hdpre hpre) (tracks_armedBy hdpre hpre)
    hdpost hpost harmed halone hlate

theorem left_alone_runs_once_bothArmAgain :
    ∃ e, bothArmAgain.foldlM alarmStep (init 0) = .ok e ∧ RunsOnceAt e bothRunAgain 1 9 :=
  ⟨_, rfl, @left_alone_runs_once 0 bothArmAgain _ _ _ bothRunAgain_dcheck rfl rfl 1 9
    (by decide) (by decide) (by decide)⟩

/-- The simulator on its own.  Whatever it has done, the delegates that it has started,
the batch and the map are together the alarms that there were, in the order of the map.
It can go on until all of them have run and no event is left. -/
theorem simulator_runs_all (now₀ : Nat) {e : Ns3QuicAlarmEngine}
    (h : Reach alarmStep DcheckHolds (init now₀) e) (hf : e.frame = none) :
    (∀ ops e', SimulatorRun e ops e' →
        e.delegatesStarted ops ++ (e'.batch ++ e'.alarmMap.map MapEntry.cb) =
          e.alarmMap.map MapEntry.cb) ∧
      ∃ ops e', SimulatorRun e ops e' ∧ e'.frame = none ∧ e'.sim.pending = [] ∧
        e.delegatesStarted ops = e.alarmMap.map MapEntry.cb := by
  have hwaiting : ∀ ops e', SimulatorRun e ops e' →
      e.delegatesStarted ops ++ (e'.batch ++ e'.alarmMap.map MapEntry.cb) =
        e.alarmMap.map MapEntry.cb := by
    intro ops e' hrun
    rw [hrun.started_append_waiting, batch_of_idle hf, List.nil_append]
  obtain ⟨ops, e', hrun, hret, hmap, hpending⟩ := pending_runs_all (callInv_reach h) hf
  have hall := hwaiting ops e' hrun
  rw [batch_of_idle hret, hmap] at hall
  exact ⟨hwaiting, ops, e', hrun, hret, hpending, by simpa using hall⟩

theorem simulator_runs_all_bothArmAgain :
    ∃ e, Reach alarmStep DcheckHolds (init 0) e ∧
      (∀ ops e', SimulatorRun e ops e' →
        e.delegatesStarted ops ++ (e'.batch ++ e'.alarmMap.map MapEntry.cb) =
          e.alarmMap.map MapEntry.cb) ∧
      ∃ ops e', SimulatorRun e ops e' ∧ e'.frame = none ∧ e'.sim.pending = [] ∧
        e.delegatesStarted ops = e.alarmMap.map MapEntry.cb :=
  have hreach : Reach alarmStep DcheckHolds (init 0) _ := bothArmAgain_dcheck.reach rfl
  ⟨_, hreach, simulator_runs_all 0 hreach rfl⟩

end QuicOnNs3.Alarm
