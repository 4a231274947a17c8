import QuicOnNs3.Alarm.Callbacks

/-!
# A call of `OnTimeout`

A call is the step that starts `OnTimeout` and the steps of its callbacks, up to the one
at which it returns.  Inside of it the batch shrinks by the callback that starts and by
nothing else (`delegatesRun_eq_batch`), an armed alarm keeps its entry (`mem_run`), and
the entries that no callback touches stay (`entriesOf_run`).  The call is stopped by a
failed assertion only (`inside_fault`).  `onTimeout_runs_due` puts the parts together.
-/

namespace QuicOnNs3.Alarm

open QuicOnNs3.EventQueue QuicOnNs3.Execution

open Ns3QuicAlarmEngine

/-! ## The calls -/

namespace Ns3QuicAlarmEngine

/-- `OnTimeout`, run for `ev`, with the operations that its callbacks issue and the
returns of the callbacks. -/
def call (e : Ns3QuicAlarmEngine) (ev : Event) (ops : List AlarmOp) :
    Except Fault Ns3QuicAlarmEngine := do
  let e ← e.timeout ev
  ops.foldlM alarmStep e

/-- The alarm whose delegate runs. -/
def running (e : Ns3QuicAlarmEngine) : List AlarmCB :=
  match e.frame with
  | none => []
  | some fr => [fr.current]

/-- The alarms whose delegates start in the course of `ops`. -/
def delegatesRun : Ns3QuicAlarmEngine → List AlarmOp → List AlarmCB
  | _, [] => []
  | e, op :: ops =>
    match alarmStep e op with
    | .error _ => []
    | .ok e' => (if op = .delegateReturned then e'.running else []) ++ e'.delegatesRun ops

/-- The alarms whose delegates run in a call, one after another. -/
def delegates (e : Ns3QuicAlarmEngine) (ev : Event) (ops : List AlarmOp) : List AlarmCB :=
  match e.timeout ev with
  | .error _ => []
  | .ok e => e.running ++ e.delegatesRun ops

end Ns3QuicAlarmEngine

/-- The operation is no update, cancellation or destruction of an alarm of the batch. -/
def SparesDue (e : Ns3QuicAlarmEngine) : AlarmOp → Prop
  | .update a _ | .cancel a | .destroy a => a ∉ e.batch
  | _ => True

/-- What a callback may do: it runs inside of `OnTimeout`, keeps to the `QUICHE_DCHECK_EQ`
and spares the alarms that are due and not yet run. -/
structure InCallback (e : Ns3QuicAlarmEngine) (op : AlarmOp) : Prop where
  inside : e.frame ≠ none
  dcheck : DcheckHolds e op
  spares : SparesDue e op

/-- The alarm that an operation arms. -/
def AlarmOp.arms : AlarmOp → Option AlarmCB
  | .set a _ | .update a _ => some a
  | _ => none

/-- The alarm that an operation disarms. -/
def AlarmOp.disarms : AlarmOp → Option AlarmCB
  | .cancel a | .destroy a => some a
  | _ => none

section Call

variable {e s s' e' : Ns3QuicAlarmEngine} {op : AlarmOp} {ops : List AlarmOp} {a : AlarmCB}
  {ev : Event}

/-- Inside of `OnTimeout` an operation is on an alarm, or a callback returns. -/
theorem inside_cases (h : CallInv s) (hin : s.frame ≠ none) (hs : alarmStep s op = .ok s') :
    (∃ a, op.alarm = some a ∧ Touches s a s') ∨
      op = .delegateReturned ∧
        ∃ fr, s.frame = some fr ∧ s.runCallbacks fr.nowUs fr.rest = .ok s' := by
  cases op with
  | advance now => exact absurd (advance_ok hs).1 hin
  | timeout ev => exact absurd (canTimeout_iff.1 (timeout_ok hs).1).1 hin
  | delegateReturned =>
    obtain ⟨fr, hf, hr⟩ := callbackReturned_ok hs
    exact Or.inr ⟨rfl, fr, hf, returned_zero (e := s) fr ▸ hr⟩
  | set a d => exact Or.inl ⟨a, rfl, alarmStep_touches h.token rfl hs⟩
  | update a d => exact Or.inl ⟨a, rfl, alarmStep_touches h.token rfl hs⟩
  | cancel a => exact Or.inl ⟨a, rfl, alarmStep_touches h.token rfl hs⟩
  | destroy a => exact Or.inl ⟨a, rfl, alarmStep_touches h.token rfl hs⟩

/-- The next callback starts, or `OnTimeout` returns. -/
theorem runCallbacks_cases {nowUs : Int} {cbs : List AlarmCB}
    (h : s.runCallbacks nowUs cbs = .ok s') :
    s'.alarmMap = s.alarmMap ∧ s'.allAlarms = s.allAlarms ∧ s'.sim.now = s.sim.now ∧
      s'.running ++ s'.batch = cbs := by
  cases cbs with
  | nil =>
    have hnow := updateTimer_now h
    obtain ⟨timer, sim, heq⟩ := updateTimer_fields h
    rw [heq] at hnow ⊢
    exact ⟨rfl, rfl, hnow, rfl⟩
  | cons cb rest =>
    obtain ⟨_, heq⟩ := onAlarm_ok h
    rw [heq]
    exact ⟨rfl, rfl, rfl, rfl⟩

/-- The delegates that run until `OnTimeout` returns are those of the batch. -/
theorem delegatesRun_eq_batch (h : CallInv s) (hin : Each alarmStep InCallback s ops)
    (hrun : ops.foldlM alarmStep s = .ok e') (hret : e'.frame = none) :
    s.delegatesRun ops = s.batch := by
  induction ops generalizing s with
  | nil =>
    rw [delegatesRun, batch, run_nil_ok_iff.1 hrun, hret]
  | cons op ops ih =>
    obtain ⟨s', hs, hrest⟩ := run_cons_ok_iff.1 hrun
    have hinv := h.step hin.1.dcheck hs
    have ih := ih hinv (hin.2 s' hs) hrest
    rw [delegatesRun, hs]
    simp only [ih]
    rcases inside_cases h hin.1.inside hs with ⟨a, hop, htouches⟩ | ⟨hop, fr, hf, hr⟩
    · have hne : op ≠ .delegateReturned := fun heq => by simp [heq, AlarmOp.alarm] at hop
      rw [if_neg hne, htouches.batch]
      rfl
    · rw [if_pos hop, (runCallbacks_cases hr).2.2.2, batch, hf]

/-! ## The entries inside of a call -/

/-- The clock stands still. -/
theorem inside_now (h : CallInv s) (hin : s.frame ≠ none) (hs : alarmStep s op = .ok s') :
    s'.sim.now = s.sim.now := by
  rcases inside_cases h hin hs with ⟨a, _, htouches⟩ | ⟨_, fr, _, hr⟩
  · exact htouches.now
  · exact (runCallbacks_cases hr).2.2.1

/-- An operation that is not on `a` leaves its entries alone. -/
theorem inside_entriesOf (h : CallInv s) (hin : s.frame ≠ none) (ha : op.alarm ≠ some a)
    (hs : alarmStep s op = .ok s') : s'.entriesOf a = s.entriesOf a := by
  rcases inside_cases h hin hs with ⟨b, hop, htouches⟩ | ⟨_, fr, _, hr⟩
  · exact htouches.entriesOf h.token fun hab => ha (by rw [hop, hab])
  · unfold entriesOf
    rw [(runCallbacks_cases hr).1]

theorem mem_allAlarms_iff (h : MapInv s) : a ∈ s.allAlarms ↔ s.entriesOf a ≠ [] := by
  rw [h.mem_all, List.mem_map]
  constructor
  · intro ⟨i, hi, hcb⟩
    exact List.ne_nil_of_mem (List.mem_filter.2 ⟨hi, by simpa using hcb⟩)
  · intro hne
    obtain ⟨i, hi⟩ := List.exists_mem_of_ne_nil _ hne
    obtain ⟨hmem, hcb⟩ := List.mem_filter.1 hi
    exact ⟨i, hmem, by simpa using hcb⟩

theorem registerAlarm_mem {t : Int} (hr : s.registerAlarm t a = .ok s') : a ∈ s'.allAlarms := by
  have ⟨timer, sim, heq⟩ := rearm_fields hr
  rw [heq]
  show a ∈ (s.ensureAlarm (s.clamp t) a).allAlarms
  unfold ensureAlarm
  split
  · rename_i ha
    exact ha
  · exact Finset.mem_insert_self a s.allAlarms

/-- An alarm that an operation arms has an entry. -/
theorem CallInv.arms_mem (h : CallInv s) (hop : op.arms = some a) (hs : alarmStep s op = .ok s') :
    a ∈ s'.allAlarms := by
  cases op with
  | set b d =>
    obtain rfl := Option.some.inj hop
    exact registerAlarm_mem (onLive_ok hs).2
  | update b d =>
    obtain rfl := Option.some.inj hop
    have hu := (onLive_ok hs).2
    rcases update_ok hu with ⟨hreg, hr⟩ | hr
    · have hmem := (update_ok_cond h.run h.token hreg hu).1
      obtain ⟨token, e₁, hre, heq⟩ := baseReregisterAlarm_ok hr
      obtain ⟨i, next, m, _, _, hrearm, _⟩ := reregisterAlarm_ok hre
      obtain ⟨timer, sim, he₁⟩ := rearm_fields hrearm
      rw [heq, setAlarm_allAlarms, he₁]
      exact hmem
    · exact registerAlarm_mem hr
  | _ => simp [AlarmOp.arms] at hop

/-- An alarm keeps its entry through every operation that does not disarm it. -/
theorem CallInv.keeps_mem (h : CallInv s) (hin : InCallback s op) (ha : a ∈ s.allAlarms)
    (hop : op.disarms ≠ some a) (hs : alarmStep s op = .ok s') : a ∈ s'.allAlarms := by
  by_cases hon : op.alarm = some a
  · have harms : op.arms = some a := by
      cases op with
      | cancel b => exact absurd hon hop
      | destroy b => exact absurd hon hop
      | _ => exact hon
    exact h.arms_mem harms hs
  · rw [mem_allAlarms_iff (h.step hin.dcheck hs).run.toMapInv, inside_entriesOf h hin.inside hon hs,
      ← mem_allAlarms_iff h.run.toMapInv]
    exact ha

/-! ## The timer at the return -/

/-- The timer is pending exactly at the first key, and an empty map leaves nothing
pending. -/
def TimerSet (e : Ns3QuicAlarmEngine) : Prop :=
  (e.alarmMap = [] → e.sim.pending = []) ∧
    ∀ i m, e.alarmMap = i :: m → ∃ uid ts, e.sim.pending = [⟨uid, ts⟩] ∧ e.timer = some uid ∧
      ((ts / 1000 : Nat) : Int) = i.key

theorem runCallbacks_timerSet (hsole : s.sim.Sole s.timer) {nowUs : Int} {cbs : List AlarmCB}
    (h : s.runCallbacks nowUs cbs = .ok s') (hret : s'.frame = none) : TimerSet s' := by
  cases cbs with
  | nil =>
    obtain ⟨timer, sim, heq, _, hcases⟩ := updateTimer_ok (e := { s with frame := none }) hsole h
    rw [heq]
    rcases hcases with ⟨hm, hpending⟩ | ⟨i, m, uid, hm, hkey, htimer, hpending⟩
    · refine ⟨fun _ => hpending, fun i m hm' => ?_⟩
      exact absurd (hm.symm.trans hm') (by simp)
    · refine ⟨fun hm' => absurd (hm.symm.trans hm') (by simp), fun i' m' hm' => ?_⟩
      have hi := (List.cons.inj (hm.symm.trans hm')).1
      rw [← hi]
      exact ⟨uid, _, hpending, htimer, micros_add hkey⟩
  | cons cb rest =>
    obtain ⟨_, heq⟩ := onAlarm_ok h
    rw [heq] at hret
    simp at hret

/-! ## The faults inside of a call -/

section Faults

variable {f : Fault}

theorem runCallbacks_fault {cbs : List AlarmCB} (h : RegInv s cbs) {nowUs : Int}
    (hf : s.runCallbacks nowUs cbs = .error f) : f = .assertFailed := by
  cases cbs with
  | nil => exact updateTimer_fault hf
  | cons cb rest =>
    have hreg := (h.registered cb).2 (Or.inr (List.mem_cons_self ..))
    rw [runCallbacks, onAlarm, if_pos (h.sound cb hreg).2] at hf
    simp at hf

theorem timeout_fault (h : CallInv s) (hcan : s.canTimeout ev = true)
    (hf : s.timeout ev = .error f) : f = .assertFailed := by
  have hreg := h.reg
  rw [batch, (canTimeout_iff.1 hcan).1] at hreg
  rw [timeout_eq hcan] at hf
  exact runCallbacks_fault (hreg.drainedAt ev) hf

/-- An alarm that is registered and not in the batch has an entry. -/
theorem CallInv.mem_of_registered (h : CallInv s) (ha : (s.alarms a).registered = true)
    (hb : a ∉ s.batch) : a ∈ s.allAlarms :=
  ((h.reg.registered a).1 ha).resolve_right hb

theorem CallInv.unregister_succeeds (h : CallInv s) (hb : a ∉ s.batch) :
    ∃ s', s.unregisterIfRegistered a = .ok s' := by
  by_cases ha : (s.alarms a).registered = true
  · obtain ⟨i, _, _, _, hentry⟩ :=
      h.token.entryAt_token h.run.toMapInv (h.mem_of_registered ha hb)
    unfold Ns3QuicAlarmEngine.unregisterIfRegistered Ns3QuicAlarmEngine.unregisterAlarm
    rw [if_pos ha, if_pos (h.token.attached a ha), hentry]
    exact ⟨_, rfl⟩
  · unfold Ns3QuicAlarmEngine.unregisterIfRegistered
    rw [if_neg ha]
    exact ⟨s, rfl⟩

theorem CallInv.setDeadline (h : CallInv s) (a : AlarmCB) (d : Int) :
    CallInv (s.setAlarm a fun x => { x with deadline := d }) :=
  ⟨h.run.setAlarm a _, h.token.setDeadline a d, h.reg.setDeadline a d, h.ordered⟩

theorem CallInv.update_fault (h : CallInv s) (hb : a ∉ s.batch) {d : Int}
    (hf : s.update a d = .error f) : f = .assertFailed := by
  by_cases ha : (s.alarms a).registered = true
  · obtain ⟨i, _, _, _, hentry⟩ :=
      h.token.entryAt_token h.run.toMapInv (h.mem_of_registered ha hb)
    have hentry' : (s.setAlarm a fun x => { x with deadline := d }).entryAt
        (s.alarms a).token = some i := hentry
    rw [update_registered ha, Ns3QuicAlarmEngine.baseReregisterAlarm] at hf
    simp only [setAlarm_alarms, if_true, h.token.attached a ha] at hf
    split at hf
    · rename_i f' hre
      rw [← Except.error.inj hf]
      unfold Ns3QuicAlarmEngine.reregisterAlarm at hre
      rw [hentry'] at hre
      simp only at hre
      split at hre
      · exact (Except.error.inj hre).symm
      · rcases bind_error_iff.1 hre with hrearm | ⟨s₁, _, hrun⟩
        · exact rearm_fault hrearm
        · split_ifs at hrun
          exact (Except.error.inj hrun).symm
    · simp at hf
  · rw [update_unregistered ha] at hf
    exact rearm_fault hf

theorem onLive_fault {r : Except Fault Ns3QuicAlarmEngine}
    (hr : r = .error f → f = .assertFailed) (hf : s.onLive a r = .error f) :
    f = .assertFailed ∨ f = .notEnabled := by
  unfold onLive at hf
  split_ifs at hf
  · exact Or.inl (hr hf)
  · exact Or.inr (Except.error.inj hf).symm

/-- What a callback does is stopped by a failed assertion only. -/
theorem inside_fault (h : CallInv s) (hin : InCallback s op) (hf : alarmStep s op = .error f) :
    f = .assertFailed ∨ f = .notEnabled := by
  have hframe := hin.inside
  have hspares := hin.spares
  cases op with
  | advance now =>
    simp [alarmStep, advance, hframe] at hf
    exact Or.inr hf.symm
  | timeout ev =>
    simp [alarmStep, timeout, canTimeout, hframe] at hf
    exact Or.inr hf.symm
  | delegateReturned =>
    rw [alarmStep, callbackReturned] at hf
    split at hf
    · exact Or.inr (Except.error.inj hf).symm
    · rename_i fr hfr
      have hreg := h.reg
      rw [batch, hfr] at hreg
      rw [returned_zero] at hf
      exact Or.inl (runCallbacks_fault hreg hf)
  | set a d => exact onLive_fault rearm_fault hf
  | update a d => exact onLive_fault (h.update_fault hspares) hf
  | cancel a =>
    refine onLive_fault (fun hc => ?_) hf
    obtain ⟨s', hu⟩ := (h.setDeadline a 0).unregister_succeeds hspares
    exact absurd (hu.symm.trans hc) (by simp)
  | destroy a =>
    refine onLive_fault (fun hd => ?_) hf
    obtain ⟨s', hu⟩ := h.unregister_succeeds hspares
    unfold Ns3QuicAlarmEngine.destroy at hd
    rw [hu] at hd
    exact absurd hd (by simp [bind, Except.bind])

end Faults

/-! ## Whole calls -/

theorem callInv_run (h : CallInv s) (hin : Each alarmStep InCallback s ops)
    (hrun : ops.foldlM alarmStep s = .ok s') : CallInv s' :=
  hin.run_keeps (fun _ _ _ hi hc => hi.step hc.dcheck) h hrun

theorem now_run (h : CallInv s) (hin : Each alarmStep InCallback s ops)
    (hrun : ops.foldlM alarmStep s = .ok s') : s'.sim.now = s.sim.now :=
  (hin.run_keeps (I := fun t => CallInv t ∧ t.sim.now = s.sim.now)
    (fun _ _ _ hi hc ht =>
      ⟨hi.1.step hc.dcheck ht, (inside_now hi.1 hc.inside ht).trans hi.2⟩) ⟨h, rfl⟩ hrun).2

theorem entriesOf_run (h : CallInv s) (hin : Each alarmStep InCallback s ops)
    (ha : ∀ op ∈ ops, op.alarm ≠ some a) (hrun : ops.foldlM alarmStep s = .ok s') :
    s'.entriesOf a = s.entriesOf a := by
  have hboth := (each_and s ops).1 ⟨hin, each_of_forall_mem ha⟩
  refine (hboth.run_keeps (I := fun t => CallInv t ∧ t.entriesOf a = s.entriesOf a)
    (fun t op t' hi hc ht => ⟨hi.1.step hc.1.dcheck ht, ?_⟩) ⟨h, rfl⟩ hrun).2
  exact (inside_entriesOf hi.1 hc.1.inside hc.2 ht).trans hi.2

theorem mem_run (h : CallInv s) (hin : Each alarmStep InCallback s ops)
    (hops : ∀ op ∈ ops, op.disarms ≠ some a) (ha : a ∈ s.allAlarms)
    (hrun : ops.foldlM alarmStep s = .ok s') : a ∈ s'.allAlarms := by
  have hboth := (each_and s ops).1 ⟨hin, each_of_forall_mem hops⟩
  exact (hboth.run_keeps (I := fun t => CallInv t ∧ a ∈ t.allAlarms)
    (fun t op t' hi hc ht => ⟨hi.1.step hc.1.dcheck ht, hi.1.keeps_mem hc.1 hi.2 hc.2 ht⟩)
    ⟨h, ha⟩ hrun).2

theorem timerSet_run (h : CallInv s) (hset : s.frame = none → TimerSet s)
    (hin : Each alarmStep InCallback s ops) (hrun : ops.foldlM alarmStep s = .ok s')
    (hret : s'.frame = none) : TimerSet s' := by
  refine (hin.run_keeps (I := fun t => CallInv t ∧ (t.frame = none → TimerSet t))
    (fun t op t' hi hc ht => ⟨hi.1.step hc.dcheck ht, fun hf => ?_⟩) ⟨h, hset⟩ hrun).2 hret
  rcases inside_cases hi.1 hc.inside ht with ⟨b, _, htouches⟩ | ⟨_, fr, _, hr⟩
  · exact absurd (htouches.frame.symm.trans hf) hc.inside
  · exact runCallbacks_timerSet hi.1.run.sole hr hf

/-- The entries that are left when `OnTimeout` has been started. -/
theorem timeout_entries (h : CallInv e) (ht : e.timeout ev = .ok s) :
    s.alarmMap = e.alarmMap.filter fun i => decide (((ev.ts / 1000 : Nat) : Int) < i.key) := by
  rw [timeout_eq (timeout_ok ht).1] at ht
  rw [(runCallbacks_cases ht).1]
  exact h.run.sorted.dropWhile_eq_filter _

theorem timeout_now (ht : e.timeout ev = .ok s) : s.sim.now = ev.ts := by
  rw [timeout_eq (timeout_ok ht).1] at ht
  exact (runCallbacks_cases ht).2.2.1

theorem timeout_timerSet (h : CallInv e) (ht : e.timeout ev = .ok s) (hret : s.frame = none) :
    TimerSet s := by
  have hev := (canTimeout_iff.1 (timeout_ok ht).1).2.1
  rw [timeout_eq (timeout_ok ht).1] at ht
  exact runCallbacks_timerSet (Or.inl (h.run.sole.pending_execute hev)) ht hret

/-- The alarms that are due become the running one and the batch. -/
theorem timeout_batch (h : CallInv e) (ht : e.timeout ev = .ok s) :
    s.running ++ s.batch =
      (e.alarmMap.filter fun i => decide (i.key ≤ ((ev.ts / 1000 : Nat) : Int))).map
        MapEntry.cb := by
  rw [timeout_eq (timeout_ok ht).1] at ht
  rw [(runCallbacks_cases ht).2.2.2]
  exact congrArg _ (h.run.sorted.takeWhile_eq_filter _)

end Call

/-- What a call of `OnTimeout` for `ev` does, with `ops` in its callbacks and `e'` at its
return. -/
structure RunsDue (e : Ns3QuicAlarmEngine) (ev : Event) (ops : List AlarmOp)
    (e' : Ns3QuicAlarmEngine) : Prop where
  /-- The delegates are those of the alarms that are due, once each, in key order and
  within a key in the order of their registrations. -/
  delegates : e.delegates ev ops =
    (e.alarmMap.filter fun i => decide (i.key ≤ ((ev.ts / 1000 : Nat) : Int))).map MapEntry.cb
  once : (e.delegates ev ops).Nodup
  order : (e.alarmMap.filter fun i => decide (i.key ≤ ((ev.ts / 1000 : Nat) : Int))).Pairwise
    fun i j => i.key < j.key ∨ i.key = j.key ∧ i.node < j.node
  /-- An alarm that a callback arms is not run after that, and stays registered unless a
  callback disarms it, with a key that has not passed. -/
  armed : ∀ pre op post a, ops = pre ++ op :: post → op.arms = some a →
    ∃ s s', e.call ev pre = .ok s ∧ alarmStep s op = .ok s' ∧ a ∉ s'.delegatesRun post ∧
      ((∀ o ∈ post, o.disarms ≠ some a) → (e'.alarms a).registered = true ∧
        ∃ i ∈ e'.alarmMap, i.cb = a ∧ ((ev.ts / 1000 : Nat) : Int) ≤ i.key)
  /-- The entries of an alarm that no callback touches stay, unless they were due. -/
  untouched : ∀ a, (∀ op ∈ ops, op.alarm ≠ some a) →
    e'.entriesOf a =
      (e.entriesOf a).filter fun i => decide (((ev.ts / 1000 : Nat) : Int) < i.key)
  timer : TimerSet e'

section Whole

variable {e s e' : Ns3QuicAlarmEngine} {ev : Event} {op : AlarmOp} {ops pre post : List AlarmOp}
  {a : AlarmCB}

theorem call_eq (ht : e.timeout ev = .ok s) (ops : List AlarmOp) :
    e.call ev ops = ops.foldlM alarmStep s := by
  rw [call, ht]
  rfl

/-- Without a failed assertion the call is carried out. -/
theorem call_succeeds (h : CallInv e) (hcan : e.canTimeout ev = true)
    (hcallbacks : ∀ s, e.timeout ev = .ok s → Each alarmStep InCallback s ops)
    (hassert : e.call ev ops ≠ .error .assertFailed)
    (henabled : e.call ev ops ≠ .error .notEnabled) :
    ∃ s e', e.timeout ev = .ok s ∧ ops.foldlM alarmStep s = .ok e' := by
  cases ht : e.timeout ev with
  | error f =>
    have hcall : e.call ev ops = .error f := bind_error_iff.2 (Or.inl ht)
    rw [timeout_fault h hcan ht] at hcall
    exact absurd hcall hassert
  | ok s =>
    have hs : CallInv s := h.step (by trivial : DcheckHolds e (.timeout ev)) ht
    have hfaults : Each alarmStep (fun t op => ∀ f, alarmStep t op = .error f →
        f = .assertFailed ∨ f = .notEnabled) s ops :=
      each_of_each (fun t op hi hc f hf => inside_fault hi hc hf)
        (fun t op t' hi hc => hi.step hc.dcheck) hs (hcallbacks s ht)
    rw [call_eq ht] at hassert henabled
    cases hrun : ops.foldlM alarmStep s with
    | error f =>
      rcases hfaults.fault hrun with heq | heq
      · exact absurd (heq ▸ hrun) hassert
      · exact absurd (heq ▸ hrun) henabled
    | ok e' => exact ⟨s, e', rfl, hrun⟩

/-- What becomes of an alarm that a callback arms. -/
theorem armed_run (h : CallInv s) (hin : Each alarmStep InCallback s (pre ++ op :: post))
    (hrun : (pre ++ op :: post).foldlM alarmStep s = .ok e') (hret : e'.frame = none)
    (harms : op.arms = some a) :
    ∃ s₁ s₂, pre.foldlM alarmStep s = .ok s₁ ∧ alarmStep s₁ op = .ok s₂ ∧
      a ∉ s₂.delegatesRun post ∧
      ((∀ o ∈ post, o.disarms ≠ some a) → (e'.alarms a).registered = true ∧
        ∃ i ∈ e'.alarmMap, i.cb = a ∧ e'.nowUs ≤ i.key) := by
  have he' := callInv_run h hin hrun
  rw [List.foldlM_append] at hrun
  have ⟨s₁, hpre, hrest⟩ := bind_ok_iff.1 hrun
  have ⟨s₂, hs₂, hpost⟩ := run_cons_ok_iff.1 hrest
  have ⟨hinpre, hinop⟩ := (each_append hpre (op :: post)).1 hin
  have h₁ := callInv_run h hinpre hpre
  have h₂ := h₁.step hinop.1.dcheck hs₂
  have hmem := h₁.arms_mem harms hs₂
  refine ⟨s₁, s₂, hpre, hs₂, ?_, fun hkept => ?_⟩
  · rw [delegatesRun_eq_batch h₂ (hinop.2 s₂ hs₂) hpost hret]
    exact fun hb => h₂.reg.batch_out a hb hmem
  · have hmem' := mem_run h₂ (hinop.2 s₂ hs₂) hkept hmem hpost
    obtain ⟨i, hi, hcb⟩ := he'.run.exists_entry hmem'
    exact ⟨(he'.reg.registered a).2 (Or.inl hmem'), i, hi, hcb, he'.run.keys_ge i hi⟩

/-- A call that is carried out and returns. -/
theorem runsDue_of_run (h : CallInv e) (ht : e.timeout ev = .ok s)
    (hin : Each alarmStep InCallback s ops) (hrun : ops.foldlM alarmStep s = .ok e')
    (hret : e'.frame = none) : RunsDue e ev ops e' := by
  have hs : CallInv s := h.step (by trivial : DcheckHolds e (.timeout ev)) ht
  have hnow : e'.nowUs = ((ev.ts / 1000 : Nat) : Int) := by
    rw [nowUs, (now_run hs hin hrun).trans (timeout_now ht)]
  have hdelegates : e.delegates ev ops =
      (e.alarmMap.filter fun i => decide (i.key ≤ ((ev.ts / 1000 : Nat) : Int))).map
        MapEntry.cb := by
    rw [delegates, ht]
    exact (congrArg _ (delegatesRun_eq_batch hs hin hrun hret)).trans (timeout_batch h ht)
  refine ⟨hdelegates, ?_, List.Pairwise.sublist List.filter_sublist h.ordered, ?_, ?_,
    timerSet_run hs (timeout_timerSet h ht) hin hrun hret⟩
  · rw [hdelegates]
    exact h.run.cbs_nodup.sublist (List.filter_sublist.map _)
  · intro pre op post a hops harms
    rw [hops] at hrun hin
    obtain ⟨s₁, s₂, hpre, hs₂, hnot, hkeeps⟩ := armed_run hs hin hrun hret harms
    rw [hnow] at hkeeps
    exact ⟨s₁, s₂, (call_eq ht pre).trans hpre, hs₂, hnot, hkeeps⟩
  · intro a ha
    rw [entriesOf_run hs hin ha hrun, entriesOf, timeout_entries h ht, entriesOf,
      List.filter_filter, List.filter_filter]
    simp only [Bool.and_comm]

end Whole

/-- A call of `OnTimeout` in which no assertion fails, and whose callbacks spare the
alarms that are due, runs these alarms once each and leaves the others registered, under
a timer that is pending at the first key. -/
theorem onTimeout_runs_due (now₀ : Nat) {e : Ns3QuicAlarmEngine}
    (h : Reach alarmStep DcheckHolds (init now₀) e) {ev : Event}
    (hcan : e.canTimeout ev = true) {ops : List AlarmOp}
    (hcallbacks : ∀ s, e.timeout ev = .ok s → Each alarmStep InCallback s ops)
    (hassert : e.call ev ops ≠ .error .assertFailed)
    (henabled : e.call ev ops ≠ .error .notEnabled) :
    ∃ e', e.call ev ops = .ok e' ∧ (e'.frame = none → RunsDue e ev ops e') := by
  have hinv := callInv_reach h
  have ⟨s, e', ht, hrun⟩ := call_succeeds hinv hcan hcallbacks hassert henabled
  exact ⟨e', (call_eq ht ops).trans hrun, runsDue_of_run hinv ht (hcallbacks s ht) hrun⟩

/-- The first of two alarms arms itself again, for a time that has passed. -/
def rearming : List AlarmOp := [.set 1 3, .delegateReturned, .delegateReturned]

theorem onTimeout_runs_due_rearming :
    ∃ e e', Reach alarmStep DcheckHolds (init 0) e ∧ e.call ⟨0, 5000⟩ rearming = .ok e' ∧
      RunsDue e ⟨0, 5000⟩ rearming e' := by
  have hreach : Reach alarmStep DcheckHolds (init 0) _ :=
    .tail (a := .set 2 5) (.tail (a := .set 1 5) .refl (fun _ => rfl) rfl) (fun _ => rfl) rfl
  have ⟨e', hcall, hdue⟩ := @onTimeout_runs_due 0 _ hreach ⟨0, 5000⟩ (by decide) rearming
    (by
      intro s hs
      rw [← Except.ok.inj hs]
      refine ⟨⟨Option.some_ne_none _, fun _ => rfl, trivial⟩, fun t ht => ?_⟩
      rw [← Except.ok.inj ht]
      refine ⟨⟨Option.some_ne_none _, trivial, trivial⟩, fun t ht => ?_⟩
      rw [← Except.ok.inj ht]
      exact ⟨⟨Option.some_ne_none _, trivial, trivial⟩, fun _ _ => trivial⟩)
    (by intro h; cases h) (by intro h; cases h)
  refine ⟨_, e', hreach, hcall, hdue ?_⟩
  rw [← Except.ok.inj hcall]

end QuicOnNs3.Alarm
