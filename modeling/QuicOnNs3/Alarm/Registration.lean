import QuicOnNs3.Alarm.Containers

/-!
# Registration

An alarm knows whether it is registered from its flag `registered_`, and where
from `token_`.  The engine knows it from `all_alarms_` and `alarm_map_`.  Every
operation keeps the two views equal except the first loop of `OnTimeout`, which
takes a whole batch of alarms out of the containers and leaves their flags
alone until their callbacks come.

`RegInv` is the invariant with the batch as a parameter.  It holds in every run
whose callbacks spare the batch (`regInv_alarmStep`), so the two views agree
whenever the batch is empty (`RegInv.consistent`).  A batch that is not empty
breaks them at once, and that is `registration_consistent_iff`.
-/

namespace QuicOnNs3.Alarm

open QuicOnNs3.EventQueue QuicOnNs3.Execution

namespace Ns3QuicAlarmEngine

variable {e e' : Ns3QuicAlarmEngine} {b : List AlarmCB}

/-- The entries of `alarm_map_` that carry `a`. -/
def entriesOf (e : Ns3QuicAlarmEngine) (a : AlarmCB) : List MapEntry :=
  e.alarmMap.filter fun i => i.cb = a

/-- The views of `a` and of the engine agree: `registered_` is set iff `a` is in
`all_alarms_` iff one entry carries it, and then `token_` designates that
entry. -/
def Consistent (e : Ns3QuicAlarmEngine) : Prop :=
  ∀ a, ((e.alarms a).registered = true ↔ a ∈ e.allAlarms) ∧
    (a ∈ e.allAlarms ↔ ∃ i, e.entriesOf a = [i]) ∧
    ((e.alarms a).registered = true →
      ∃ i, e.entriesOf a = [i] ∧ e.entryAt (e.alarms a).token = some i)

/-- The alarms that `OnTimeout` has erased and not yet called. -/
def batch (e : Ns3QuicAlarmEngine) : List AlarmCB :=
  match e.frame with
  | none => []
  | some fr => fr.rest

/-- The invariant of the registrations, with the batch `b`. -/
structure RegInv (e : Ns3QuicAlarmEngine) (b : List AlarmCB) : Prop extends MapInv e where
  registered : ∀ a, (e.alarms a).registered = true ↔ a ∈ e.allAlarms ∨ a ∈ b
  token : ∀ i ∈ e.alarmMap, (e.alarms i.cb).token = i.node
  batch_nodup : b.Nodup
  batch_out : ∀ a ∈ b, a ∉ e.allAlarms
  sound : ∀ a, (e.alarms a).registered = true →
    (e.alarms a).attached = true ∧ (e.alarms a).alive = true

theorem regInv_init (now : Nat) : RegInv (init now) [] where
  toMapInv := mapInv_init now
  registered := by simp [init]
  token := by simp [init]
  batch_nodup := List.nodup_nil
  batch_out := by simp
  sound := by simp [init]

theorem MapInv.entriesOf_cb (h : MapInv e) {i : MapEntry} (hi : i ∈ e.alarmMap) :
    e.entriesOf i.cb = [i] :=
  Multimap.filter_eq_of_nodup h.cbs_nodup hi

/-- With an empty batch the two views agree. -/
theorem RegInv.consistent (h : RegInv e []) : Consistent e := by
  intro a
  refine ⟨by simpa using h.registered a, ⟨?_, ?_⟩, ?_⟩
  · intro ha
    obtain ⟨i, hi, rfl⟩ := h.exists_entry ha
    exact ⟨i, h.entriesOf_cb hi⟩
  · rintro ⟨i, hi⟩
    have hmem : i ∈ e.entriesOf a := by simp [hi]
    obtain ⟨hi, hcb⟩ := List.mem_filter.1 hmem
    exact (by simpa using hcb : i.cb = a) ▸ h.mem_all_of_mem hi
  · intro hr
    obtain ⟨i, hi, rfl⟩ := h.exists_entry (by simpa using (h.registered a).1 hr)
    exact ⟨i, h.entriesOf_cb hi, h.token i hi ▸ h.entryAt_node hi⟩

/-- An alarm registered outside of the batch has a live token. -/
theorem RegInv.entryAt_token (h : RegInv e b) {a : AlarmCB}
    (hr : (e.alarms a).registered = true) (hb : a ∉ b) :
    ∃ i ∈ e.alarmMap, i.cb = a ∧ e.entryAt (e.alarms a).token = some i := by
  obtain ⟨i, hi, rfl⟩ := h.exists_entry (((h.registered a).1 hr).resolve_right hb)
  exact ⟨i, hi, rfl, h.token i hi ▸ h.entryAt_node hi⟩

/-! ## The operations -/

theorem RegInv.of_fields (h : RegInv e b) (hm : e'.alarmMap = e.alarmMap)
    (ha : e'.allAlarms = e.allAlarms) (hn : e'.nextNode = e.nextNode)
    (hal : e'.alarms = e.alarms) : RegInv e' b where
  toMapInv := h.toMapInv.of_timer hm ha hn
  registered := by rw [hal, ha]; exact h.registered
  token := by rw [hal, hm]; exact h.token
  batch_nodup := h.batch_nodup
  batch_out := by rw [ha]; exact h.batch_out
  sound := by rw [hal]; exact h.sound

theorem RegInv.rearm (h : RegInv e b) {update : Bool} (hr : e.rearm update = .ok e') :
    RegInv e' b := by
  obtain ⟨timer, sim, rfl⟩ := rearm_fields hr
  exact h.of_fields rfl rfl rfl rfl

theorem RegInv.setDeadline (h : RegInv e b) (a : AlarmCB) (d : Int) :
    RegInv (e.setAlarm a fun x => { x with deadline := d }) b := by
  refine ⟨h.toMapInv.setAlarm a _, ?_, ?_, h.batch_nodup, h.batch_out, ?_⟩
  · intro c
    rw [setAlarm_keeps Ns3Alarm.registered (by intro x; rfl)]
    exact h.registered c
  · intro i hi
    rw [setAlarm_keeps Ns3Alarm.token (by intro x; rfl)]
    exact h.token i hi
  · intro c hc
    rw [setAlarm_keeps Ns3Alarm.registered (by intro x; rfl)] at hc
    rw [setAlarm_keeps Ns3Alarm.attached (by intro x; rfl),
      setAlarm_keeps Ns3Alarm.alive (by intro x; rfl)]
    exact h.sound c hc

theorem RegInv.insertAlarm (h : RegInv e b) {ac : AlarmCB} (hac : ac ∉ e.allAlarms)
    (hb : ac ∉ b) (halive : (e.alarms ac).alive = true) (t : Int) :
    RegInv (e.insertAlarm t ac) b := by
  refine ⟨h.toMapInv.insertAlarm hac t, ?_, ?_, h.batch_nodup, ?_, ?_⟩
  · intro a
    simp only [Ns3QuicAlarmEngine.insertAlarm, Function.update_apply, Finset.mem_insert]
    split
    · rename_i ha
      simp [ha]
    · rename_i ha
      simp [ha, h.registered a]
  · intro i hi
    simp only [Ns3QuicAlarmEngine.insertAlarm, Function.update_apply]
    rcases Multimap.mem_insertUpper.1 hi with rfl | hmem
    · simp
    · have hne : i.cb ≠ ac := by
        rintro rfl
        exact hac (h.mem_all_of_mem hmem)
      rw [if_neg hne]
      exact h.token i hmem
  · intro a ha hmem
    rcases Finset.mem_insert.1 hmem with rfl | hmem
    · exact hb ha
    · exact h.batch_out a ha hmem
  · intro a
    simp only [Ns3QuicAlarmEngine.insertAlarm, Function.update_apply]
    split
    · exact fun _ => ⟨rfl, halive⟩
    · exact h.sound a

theorem RegInv.registerAlarm (h : RegInv e b) {t : Int} {ac : AlarmCB} (hb : ac ∉ b)
    (halive : (e.alarms ac).alive = true) (hr : e.registerAlarm t ac = .ok e') :
    RegInv e' b := by
  refine RegInv.rearm ?_ hr
  unfold ensureAlarm
  split
  · exact h
  · rename_i hac
    exact h.insertAlarm hac hb halive _

/-- The alarm whose entry is erased loses its flag. -/
theorem RegInv.unregisterAlarm (h : RegInv e b) {token : Nat}
    (hu : e.unregisterAlarm token = .ok e') : RegInv e' b := by
  have hmap := h.toMapInv.unregisterAlarm hu
  obtain ⟨i, hi, rfl⟩ := unregisterAlarm_ok hu
  have hall := h.mem_all_of_mem (entryAt_some hi).1
  refine ⟨hmap, ?_, ?_, h.batch_nodup, ?_, ?_⟩
  · intro a
    simp only [Function.update_apply, Finset.mem_erase]
    split
    · rename_i ha
      simpa [ha] using fun hb => h.batch_out _ hb hall
    · rename_i ha
      simp [ha, h.registered a]
  · intro j hj
    have hne : j.cb ≠ i.cb := fun hcb =>
      (Finset.mem_erase.1 ((hmap.mem_all j.cb).2 (List.mem_map_of_mem hj))).1 hcb
    simp only [Function.update_apply, if_neg hne]
    exact h.token j (List.mem_filter.1 hj).1
  · exact fun a ha hmem => h.batch_out a ha (Finset.mem_erase.1 hmem).2
  · intro a
    simp only [Function.update_apply]
    split
    · simp
    · exact h.sound a

theorem RegInv.unregisterIfRegistered (h : RegInv e b) {a : AlarmCB}
    (hu : e.unregisterIfRegistered a = .ok e') : RegInv e' b := by
  rcases unregisterIfRegistered_ok hu with ⟨-, rfl⟩ | ⟨-, hu⟩
  · exact h
  · exact h.unregisterAlarm hu

/-- The entry moves, and `token_` with it. -/
theorem RegInv.baseReregisterAlarm (h : RegInv e b) {a : AlarmCB} {t : Int}
    (hreg : (e.alarms a).registered = true) (hb : a ∉ b)
    (hr : e.baseReregisterAlarm a t = .ok e') : RegInv e' b := by
  obtain ⟨token, e₁, hre, rfl⟩ := baseReregisterAlarm_ok hr
  have hmap := h.toMapInv.reregisterAlarm hre
  obtain ⟨i, hi, rfl, hat⟩ := h.entryAt_token hreg hb
  obtain ⟨i', next, m, hi', hm, hre, -, rfl⟩ := reregisterAlarm_ok hre
  obtain rfl : i = i' := by simpa [hat] using hi'
  have hout : ∀ j ∈ next :: m, j ∈ e.alarmMap ∧ j.cb ≠ i.cb := by
    have hperm := h.toMapInv.perm_of_entryAt hat
    rw [hm] at hperm
    have hnot := (List.nodup_cons.1 ((hperm.map MapEntry.cb).nodup_iff.1 h.cbs_nodup)).1
    exact fun j hj => ⟨hperm.mem_iff.2 (List.mem_cons_of_mem _ hj),
      fun hcb => hnot (List.mem_map.2 ⟨j, hj, hcb⟩)⟩
  obtain ⟨timer, sim, rfl⟩ := rearm_fields hre
  refine ⟨hmap.setAlarm _ _, ?_, ?_, h.batch_nodup, h.batch_out, ?_⟩
  · intro c
    rw [setAlarm_alarms]
    split
    · rename_i hc
      exact hc ▸ h.registered i.cb
    · exact h.registered c
  · intro j hj
    rw [setAlarm_alarms]
    rcases Multimap.mem_insertUpper.1 hj with rfl | hj
    · simp
    · rw [if_neg (hout j hj).2]
      exact h.token j (hout j hj).1
  · intro c
    rw [setAlarm_alarms]
    split
    · exact h.sound i.cb
    · exact h.sound c

theorem RegInv.update (h : RegInv e b) {a : AlarmCB} {t : Int} (hb : a ∉ b)
    (halive : (e.alarms a).alive = true) (hu : e.update a t = .ok e') : RegInv e' b := by
  have h' := h.setDeadline a t
  rcases update_ok hu with ⟨hreg, hr⟩ | hr
  · exact h'.baseReregisterAlarm
      ((setAlarm_keeps Ns3Alarm.registered (by intro x; rfl) a).trans hreg) hb hr
  · exact h'.registerAlarm hb
      ((setAlarm_keeps Ns3Alarm.alive (by intro x; rfl) a).trans halive) hr

/-- An alarm that has been destroyed is not registered. -/
theorem RegInv.destroy (h : RegInv e b) {a : AlarmCB} (hb : a ∉ b)
    (hd : e.destroy a = .ok e') : RegInv e' b := by
  obtain ⟨e₁, hu, rfl⟩ := destroy_ok hd
  have h₁ := h.unregisterIfRegistered hu
  have hoff : (e₁.alarms a).registered = false := by
    rcases unregisterIfRegistered_ok hu with ⟨hr, rfl⟩ | ⟨hr, hu⟩
    · exact hr
    · obtain ⟨i, hi, rfl⟩ := unregisterAlarm_ok hu
      obtain ⟨j, -, rfl, hat⟩ := h.entryAt_token hr hb
      obtain rfl : j = i := by simpa [hat] using hi
      simp
  refine ⟨h₁.toMapInv.setAlarm a _, ?_, ?_, h₁.batch_nodup, h₁.batch_out, ?_⟩
  · intro c
    rw [setAlarm_alarms]
    split
    · rename_i hc
      exact hc ▸ h₁.registered a
    · exact h₁.registered c
  · intro i hi
    rw [setAlarm_alarms]
    split
    · rename_i hc
      exact hc ▸ h₁.token i hi
    · exact h₁.token i hi
  · intro c
    rw [setAlarm_alarms]
    split
    · simp [hoff]
    · exact h₁.sound c

/-! ## `OnTimeout` -/

/-- The alarm whose callback starts leaves the batch and loses its flag. -/
theorem RegInv.fire {cb : AlarmCB} {rest : List AlarmCB} (h : RegInv e (cb :: rest)) :
    RegInv (e.setAlarm cb fun x => { x with registered := false, deadline := 0 }) rest := by
  obtain ⟨hcb, hnodup⟩ := List.nodup_cons.1 h.batch_nodup
  have hout := h.batch_out cb (by simp)
  refine ⟨h.toMapInv.setAlarm cb _, ?_, ?_, hnodup, ?_, ?_⟩
  · intro a
    rw [setAlarm_alarms, setAlarm_allAlarms]
    split
    · rename_i ha
      simp [ha, hcb, hout]
    · rename_i ha
      simpa [ha] using h.registered a
  · intro i hi
    have hne : i.cb ≠ cb := fun heq => hout (heq ▸ h.mem_all_of_mem hi)
    rw [setAlarm_alarms, if_neg hne]
    exact h.token i hi
  · exact fun a ha => h.batch_out a (List.mem_cons_of_mem _ ha)
  · intro a
    rw [setAlarm_alarms]
    split
    · simp
    · exact h.sound a

theorem RegInv.runCallbacks {cbs : List AlarmCB} (h : RegInv e cbs) {nowUs : Int}
    (hr : e.runCallbacks nowUs cbs = .ok e') : RegInv e' e'.batch := by
  cases cbs with
  | nil =>
    obtain ⟨timer, sim, rfl⟩ := updateTimer_fields hr
    exact h.of_fields rfl rfl rfl rfl
  | cons cb rest =>
    obtain ⟨-, rfl⟩ := onAlarm_ok hr
    exact h.fire.of_fields rfl rfl rfl rfl

/-- The erased entries become the batch. -/
theorem RegInv.drain (h : RegInv e []) (nowUs : Int) :
    RegInv (e.drain nowUs) ((e.due nowUs).map MapEntry.cb) := by
  have hmap := h.toMapInv.drain nowUs
  have hcbs := h.cbs_nodup
  rw [← due_append_drain e nowUs, List.map_append, List.nodup_append'] at hcbs
  refine ⟨hmap, ?_, ?_, hcbs.1, ?_, h.sound⟩
  · intro a
    rw [show (e.drain nowUs).alarms = e.alarms from rfl, h.registered a, hmap.mem_all, h.mem_all,
      ← due_append_drain e nowUs, List.map_append, List.mem_append]
    simp [or_comm]
  · exact fun i hi => h.token i ((List.dropWhile_sublist _).subset hi)
  · exact fun a ha hmem => hcbs.2.2 ha ((hmap.mem_all a).1 hmem)

/-- The alarms that are due when the simulator executes `ev`. -/
def dueAt (e : Ns3QuicAlarmEngine) (ev : Event) : List MapEntry :=
  e.due (ev.ts / 1000 : Nat)

/-- The state when `OnTimeout`, run for `ev`, has left its first loop. -/
def drainedAt (e : Ns3QuicAlarmEngine) (ev : Event) : Ns3QuicAlarmEngine :=
  ({ e with sim := e.sim.execute ev } : Ns3QuicAlarmEngine).drain (ev.ts / 1000 : Nat)

theorem timeout_eq {ev : Event} (hcan : e.canTimeout ev = true) :
    e.timeout ev =
      (e.drainedAt ev).runCallbacks (ev.ts / 1000 : Nat) ((e.dueAt ev).map MapEntry.cb) := by
  rw [timeout, if_pos hcan]
  rfl

theorem RegInv.drainedAt (h : RegInv e []) (ev : Event) :
    RegInv (e.drainedAt ev) ((e.dueAt ev).map MapEntry.cb) := by
  have hex : RegInv { e with sim := e.sim.execute ev } [] := h.of_fields rfl rfl rfl rfl
  exact hex.drain (ev.ts / 1000 : Nat)

theorem RegInv.timeout (h : RegInv e []) {ev : Event} (ht : e.timeout ev = .ok e') :
    RegInv e' e'.batch := by
  rw [timeout_eq (timeout_ok ht).1] at ht
  exact (h.drainedAt ev).runCallbacks ht

/-- `OnTimeout` with two alarms due runs the first callback while the second
alarm, out of the containers, still has its flag. -/
theorem RegInv.timeout_not_consistent (h : RegInv e []) {ev : Event}
    (hcan : e.canTimeout ev = true) (hdue : 1 < (e.dueAt ev).length) :
    ∃ e', e.timeout ev = .ok e' ∧ ¬ Consistent e' := by
  have hdrain := h.drainedAt ev
  rw [timeout_eq hcan]
  match hm : e.dueAt ev with
  | [] => simp [hm] at hdue
  | [_] => simp [hm] at hdue
  | i :: j :: m =>
    rw [hm] at hdrain
    have halive := (hdrain.sound i.cb ((hdrain.registered i.cb).2 (Or.inr (by simp)))).2
    refine ⟨_, if_pos halive, fun hc => ?_⟩
    have hfire := hdrain.fire
    exact hfire.batch_out j.cb (by simp)
      ((hc j.cb).1.1 ((hfire.registered j.cb).2 (Or.inr (by simp))))

/-! ## No operation uses an erased token -/

/-- `UpdateTimer` can fail only its assertion. -/
theorem updateTimer_fault {f : Fault} (h : e.updateTimer = .error f) : f = .assertFailed := by
  unfold updateTimer at h
  generalize (if e.sim.isRunning e.timer then e.sim.cancel e.timer else e.sim) = sim at h
  split at h
  · simp at h
  · split_ifs at h
    exact (Except.error.inj h).symm

theorem rearm_fault {f : Fault} {update : Bool} (h : e.rearm update = .error f) :
    f = .assertFailed := by
  unfold rearm at h
  split_ifs at h
  exact updateTimer_fault h

theorem updateTimer_ne_erasedToken : e.updateTimer ≠ .error .erasedToken :=
  fun h => Fault.noConfusion (updateTimer_fault h)

theorem rearm_ne_erasedToken {update : Bool} : e.rearm update ≠ .error .erasedToken :=
  fun h => Fault.noConfusion (rearm_fault h)

theorem runCallbacks_ne_erasedToken {nowUs : Int} {cbs : List AlarmCB} :
    e.runCallbacks nowUs cbs ≠ .error .erasedToken := by
  cases cbs with
  | nil => exact updateTimer_ne_erasedToken
  | cons cb rest =>
    simp only [runCallbacks, onAlarm]
    split_ifs <;> simp

theorem timeout_ne_erasedToken {ev : Event} : e.timeout ev ≠ .error .erasedToken := by
  unfold timeout
  split_ifs
  · exact runCallbacks_ne_erasedToken
  · simp

theorem callbackReturned_zero_ne_erasedToken : e.callbackReturned 0 ≠ .error .erasedToken := by
  unfold callbackReturned
  split
  · simp
  · rw [returned_zero]
    exact runCallbacks_ne_erasedToken

theorem onLive_ne_erasedToken {a : AlarmCB} {op : Except Fault Ns3QuicAlarmEngine}
    (h : op ≠ .error .erasedToken) : e.onLive a op ≠ .error .erasedToken := by
  unfold onLive
  split_ifs
  · exact h
  · simp

theorem RegInv.unregisterIfRegistered_ne_erasedToken (h : RegInv e b) {a : AlarmCB}
    (hb : a ∉ b) : e.unregisterIfRegistered a ≠ .error .erasedToken := by
  unfold Ns3QuicAlarmEngine.unregisterIfRegistered
  split_ifs with hr
  · obtain ⟨i, -, -, hat⟩ := h.entryAt_token hr hb
    simp [Ns3QuicAlarmEngine.unregisterAlarm, hat]
  · simp
  · simp

theorem reregisterAlarm_ne_erasedToken {token : Nat} {i : MapEntry} {t : Int}
    (h : e.entryAt token = some i) : e.reregisterAlarm token t ≠ .error .erasedToken := by
  unfold reregisterAlarm
  simp only [h]
  split
  · simp
  · rename_i next m hm
    intro herr
    rcases bind_error_iff.1 herr with hre | ⟨e₁, -, hre⟩
    · exact rearm_ne_erasedToken hre
    · split_ifs at hre
      simp at hre

theorem RegInv.update_ne_erasedToken (h : RegInv e b) {a : AlarmCB} (hb : a ∉ b) {t : Int} :
    e.update a t ≠ .error .erasedToken := by
  have h' := h.setDeadline a t
  unfold Ns3QuicAlarmEngine.update
  simp only
  split_ifs with hr
  · obtain ⟨i, -, -, hat⟩ := h'.entryAt_token hr hb
    unfold Ns3QuicAlarmEngine.baseReregisterAlarm
    split_ifs
    · split
      · rename_i f hf
        intro heq
        obtain rfl : f = .erasedToken := by simpa using heq
        exact reregisterAlarm_ne_erasedToken hat hf
      · simp
    · simp
  · exact rearm_ne_erasedToken

theorem RegInv.destroy_ne_erasedToken (h : RegInv e b) {a : AlarmCB} (hb : a ∉ b) :
    e.destroy a ≠ .error .erasedToken := by
  intro herr
  rcases bind_error_iff.1 herr with hu | ⟨e₁, -, hset⟩
  · exact h.unregisterIfRegistered_ne_erasedToken hb hu
  · simp at hset

end Ns3QuicAlarmEngine

open Ns3QuicAlarmEngine

/-! ## Whole runs -/

/-- The operation is not on an alarm of the batch. -/
def SparesBatch (e : Ns3QuicAlarmEngine) : AlarmOp → Prop
  | .set a _ | .update a _ | .cancel a | .destroy a => a ∉ e.batch
  | _ => True

/-- An `OnTimeout` finds at most one alarm due. -/
def LoneTimeout (e : Ns3QuicAlarmEngine) (op : AlarmOp) : Prop :=
  ∀ ev, op = .timeout ev → e.canTimeout ev = true → (e.dueAt ev).length ≤ 1

/-- The alarms keep their registrations through every step that spares the
batch, and no such step uses an erased token. -/
theorem regInv_alarmStep {e e' : Ns3QuicAlarmEngine} {op : AlarmOp} (h : RegInv e e.batch)
    (hspare : SparesBatch e op) (hs : alarmStep e op = .ok e') : RegInv e' e'.batch := by
  have hbatch : e'.frame = e.frame → RegInv e' e.batch → RegInv e' e'.batch := by
    intro hf h'
    rwa [batch, hf]
  cases op with
  | advance now =>
    obtain ⟨-, -, rfl⟩ := advance_ok hs
    exact h.of_fields rfl rfl rfl rfl
  | timeout ev =>
    have hf := (canTimeout_iff.1 (timeout_ok hs).1).1
    rw [batch, hf] at h
    exact h.timeout hs
  | delegateReturned =>
    obtain ⟨fr, hf, hr⟩ := callbackReturned_ok hs
    rw [batch, hf] at h
    exact h.runCallbacks (returned_zero (e := e) fr ▸ hr)
  | set a d =>
    obtain ⟨halive, hr⟩ := onLive_ok hs
    exact hbatch ((registerAlarm_frame hr).trans rfl) ((h.setDeadline a d).registerAlarm hspare
      ((setAlarm_keeps Ns3Alarm.alive (by intro x; rfl) a).trans halive) hr)
  | update a d =>
    obtain ⟨halive, hu⟩ := onLive_ok hs
    exact hbatch (update_frame hu) (h.update hspare halive hu)
  | cancel a =>
    obtain ⟨-, hu⟩ := onLive_ok hs
    exact hbatch ((unregisterIfRegistered_frame hu).trans rfl)
      ((h.setDeadline a 0).unregisterIfRegistered hu)
  | destroy a =>
    obtain ⟨-, hd⟩ := onLive_ok hs
    exact hbatch (destroy_frame hd) (h.destroy hspare hd)

theorem alarmStep_ne_erasedToken {e : Ns3QuicAlarmEngine} {op : AlarmOp}
    (h : RegInv e e.batch) (hspare : SparesBatch e op) :
    alarmStep e op ≠ .error .erasedToken := by
  cases op with
  | advance now =>
    simp only [alarmStep, advance]
    split_ifs <;> simp
  | timeout ev => exact timeout_ne_erasedToken
  | delegateReturned => exact callbackReturned_zero_ne_erasedToken
  | set a d => exact onLive_ne_erasedToken rearm_ne_erasedToken
  | update a d => exact onLive_ne_erasedToken (h.update_ne_erasedToken hspare)
  | cancel a =>
    exact onLive_ne_erasedToken
      ((h.setDeadline a 0).unregisterIfRegistered_ne_erasedToken hspare)
  | destroy a => exact onLive_ne_erasedToken (h.destroy_ne_erasedToken hspare)

/-- A step that leaves no batch behind: every `OnTimeout` of it finds at most
one alarm due. -/
theorem batch_alarmStep {e e' : Ns3QuicAlarmEngine} {op : AlarmOp} (hb : e.batch = [])
    (hlone : LoneTimeout e op) (hs : alarmStep e op = .ok e') : e'.batch = [] := by
  have hframe : e'.frame = e.frame → e'.batch = [] := by
    intro hf
    rwa [batch, hf]
  cases op with
  | advance now =>
    obtain ⟨-, -, rfl⟩ := advance_ok hs
    exact hb
  | timeout ev =>
    have hcan := (timeout_ok hs).1
    have hle := hlone ev rfl hcan
    rw [alarmStep, timeout_eq hcan] at hs
    match hm : e.dueAt ev with
    | [] =>
      rw [hm] at hs
      obtain ⟨timer, sim, rfl⟩ := updateTimer_fields hs
      rfl
    | [i] =>
      rw [hm] at hs
      obtain ⟨-, rfl⟩ := onAlarm_ok hs
      rfl
    | i :: j :: m => simp [hm] at hle
  | delegateReturned =>
    obtain ⟨fr, hf, hr⟩ := callbackReturned_ok hs
    have hrest : fr.rest = [] := by simpa [batch, hf] using hb
    rw [returned_zero, hrest] at hr
    obtain ⟨timer, sim, rfl⟩ := updateTimer_fields hr
    rfl
  | set a d => exact hframe ((registerAlarm_frame (onLive_ok hs).2).trans rfl)
  | update a d => exact hframe (update_frame (onLive_ok hs).2)
  | cancel a => exact hframe ((unregisterIfRegistered_frame (onLive_ok hs).2).trans rfl)
  | destroy a => exact hframe (destroy_frame (onLive_ok hs).2)

theorem sparesBatch_of_nil {e : Ns3QuicAlarmEngine} (hb : e.batch = []) (op : AlarmOp) :
    SparesBatch e op := by
  cases op <;> simp [SparesBatch, hb]

/-- The two views agree in every state of a run, and no operation of the run
uses an erased token, exactly when every `OnTimeout` of the run finds at most
one alarm due. -/
theorem registration_consistent_iff (now₀ : Nat) (ops : List AlarmOp) :
    (Along alarmStep Consistent (init now₀) ops ∧
      Each alarmStep (fun e op => alarmStep e op ≠ .error .erasedToken) (init now₀) ops) ↔
      Each alarmStep LoneTimeout (init now₀) ops := by
  rw [along_iff, and_assoc, each_and, and_iff_right (regInv_init now₀).consistent]
  -- the invariant of the runs that meet the condition: no batch, and both views agree
  refine each_iff (I := fun e => RegInv e [] ∧ e.batch = []) ?_ ?_ ⟨regInv_init now₀, rfl⟩ ops
  · rintro e op ⟨h, hb⟩
    constructor
    · rintro ⟨hnext, -⟩ ev rfl hcan
      by_contra hdue
      obtain ⟨e', ht, hnot⟩ := h.timeout_not_consistent hcan (by omega)
      exact hnot (hnext e' ht)
    · intro hlone
      have hspare := sparesBatch_of_nil hb op
      have h' : RegInv e e.batch := by rwa [hb]
      refine ⟨fun e' hs => ?_, alarmStep_ne_erasedToken h' hspare⟩
      have hnext := regInv_alarmStep h' hspare hs
      rw [batch_alarmStep hb hlone hs] at hnext
      exact hnext.consistent
  · rintro e op e' ⟨h, hb⟩ hlone hs
    have hnext := regInv_alarmStep (by rwa [hb]) (sparesBatch_of_nil hb op) hs
    have hb' := batch_alarmStep hb hlone hs
    rw [hb'] at hnext
    exact ⟨hnext, hb'⟩

/-- Two alarms for the same microsecond: in the first callback the second alarm
has its flag and is in no container, and cancelling it there uses its erased
token. -/
theorem registration_inconsistent_in_batch :
    ¬ Along alarmStep Consistent (init 0) [.set 1 5, .set 2 5, .timeout ⟨0, 5000⟩] ∧
      ¬ Each alarmStep (fun e op => alarmStep e op ≠ .error .erasedToken) (init 0)
        [.set 1 5, .set 2 5, .timeout ⟨0, 5000⟩, .cancel 2] := by
  constructor
  · intro h
    have hc := (((h.2 _ rfl).2 _ rfl).2 _ rfl 2).1.1 rfl
    exact absurd hc (by decide)
  · intro h
    exact (((h.2 _ rfl).2 _ rfl).2 _ rfl).1 rfl

end QuicOnNs3.Alarm
