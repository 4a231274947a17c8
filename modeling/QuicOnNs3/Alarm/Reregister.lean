import QuicOnNs3.Alarm.Registration
import QuicOnNs3.Alarm.Timer

/-!
# Moving an alarm

`ReregisterAlarm` erases the entry of a token and inserts it again at its new
deadline.  In between it compares the deadline with the first key of the map, which
is then the first key of the other alarms, and `NS_ASSERT` asks that there be one.

`Covered` is what the comparison needs: no pending event is later than a key.  It
holds inside of `OnTimeout` too, where the timer need not be pending.
`reregisters_iff` says when an alarm can be moved.
-/

namespace QuicOnNs3.Alarm

open QuicOnNs3.EventQueue QuicOnNs3.Execution

namespace Ns3QuicAlarmEngine

variable {e e' : Ns3QuicAlarmEngine}

/-! ## The pending event comes first -/

/-- No pending event is later than the microsecond of a key. -/
def Covered (e : Ns3QuicAlarmEngine) : Prop :=
  ∀ ev ∈ e.sim.pending, ∀ i ∈ e.alarmMap, ((ev.ts / 1000 : Nat) : Int) ≤ i.key

theorem covered_of_idle (h : e.sim.pending = []) : Covered e := by
  simp [Covered, h]

/-- No key goes below the keys that were there. -/
theorem Covered.of_keys (h : Covered e) (hsim : e'.sim = e.sim)
    (hkeys : ∀ i ∈ e'.alarmMap, ∃ j ∈ e.alarmMap, j.key ≤ i.key) : Covered e' := by
  intro ev hev i hi
  rw [hsim] at hev
  have ⟨j, hj, hle⟩ := hkeys i hi
  exact (h ev hev j hj).trans hle

theorem Covered.of_updateTimer (hsorted : Multimap.Sorted MapEntry.key e.alarmMap)
    (hsole : e.sim.Sole e.timer) (h : e.updateTimer = .ok e') : Covered e' := by
  have ⟨timer, sim, heq, _, hcases⟩ := updateTimer_ok hsole h
  rw [heq]
  rcases hcases with ⟨_, hpending⟩ | ⟨i, m, uid, hm, hkey, _, hpending⟩
  · exact covered_of_idle hpending
  · intro ev hev j hj
    rw [hpending, List.mem_singleton] at hev
    change j ∈ e.alarmMap at hj
    rw [hm] at hsorted hj
    rw [hev]
    exact (micros_add hkey).trans_le (hsorted.head_le hj)

/-- The fields of the alarms do not matter. -/
theorem Covered.setAlarm (h : Covered e) (a : AlarmCB) (f : Ns3Alarm → Ns3Alarm) :
    Covered (e.setAlarm a f) := h

/-- A key is added, and `UpdateTimer` runs where it has to. -/
theorem Covered.of_rearm {e₁ : Ns3QuicAlarmEngine} {t : Int} {update : Bool} (h : Covered e)
    (ht : TimerInv e) (hkey : AddsKey e e₁ t update) (hr : e₁.rearm update = .ok e') :
    Covered e' := by
  unfold rearm at hr
  split_ifs at hr with hu
  · exact .of_updateTimer hkey.sorted (by rw [hkey.sim, hkey.timer]; exact ht.sole) hr
  · rw [← Except.ok.inj hr]
    simp only [Bool.or_eq_true, not_or, Bool.not_eq_true] at hu
    exact h.of_keys hkey.sim (hkey.exists_key_le hu.2)

theorem Covered.registerAlarm (h : Covered e) (ht : TimerInv e) {t : Int} {ac : AlarmCB}
    (hr : e.registerAlarm t ac = .ok e') : Covered e' :=
  h.of_rearm ht (ensureAlarm_addsKey ht.sorted _ _) hr

theorem Covered.unregisterAlarm (h : Covered e) {token : Nat}
    (hu : e.unregisterAlarm token = .ok e') : Covered e' := by
  have ⟨i, _, heq⟩ := unregisterAlarm_ok hu
  rw [heq]
  intro ev hev j hj
  exact h ev hev j (List.mem_filter.1 hj).1

theorem Covered.reregisterAlarm (h : Covered e) (ht : TimerInv e) {token token' : Nat} {t : Int}
    (hr : e.reregisterAlarm token t = .ok (token', e')) : Covered e' := by
  have ⟨_, _, hkey, hr⟩ := reregisterAlarm_addsKey ht.sorted hr
  exact h.of_rearm ht hkey hr

theorem Covered.runCallbacks (h : Covered e) (hsorted : Multimap.Sorted MapEntry.key e.alarmMap)
    (hsole : e.sim.Sole e.timer) {nowUs : Int} {cbs : List AlarmCB}
    (hr : e.runCallbacks nowUs cbs = .ok e') : Covered e' := by
  cases cbs with
  | nil => exact .of_updateTimer (e := { e with frame := none }) hsorted hsole hr
  | cons cb rest =>
    obtain ⟨_, heq⟩ := onAlarm_ok hr
    rw [heq]
    exact h

/-- The execution of the only pending event leaves none. -/
theorem covered_timeout (ht : TimerInv e) {ev : Event} (h : e.timeout ev = .ok e') :
    Covered e' := by
  have ⟨hcan, h⟩ := timeout_ok h
  have hidle := ht.sole.pending_execute (canTimeout_iff.1 hcan).2.1
  exact (covered_of_idle hidle).runCallbacks (ht.sorted.sublist (List.dropWhile_sublist _))
    (Or.inl hidle) h

theorem Covered.callbackReturned (h : Covered e) (ht : TimerInv e) {r : Int}
    (hr : e.callbackReturned r = .ok e') : Covered e' := by
  have ⟨fr, _, hr⟩ := callbackReturned_ok hr
  rcases returned_ok hr with hr | ⟨e₁, hreg, hr⟩ | hr
  · obtain ⟨_, heq⟩ := onAlarm_ok hr
    rw [heq]
    exact h
  · have ht₁ := ht.registerAlarm hreg
    exact (h.registerAlarm ht hreg).runCallbacks ht₁.sorted ht₁.sole hr
  · exact h.runCallbacks ht.sorted ht.sole hr

theorem Covered.advance (h : Covered e) {now : Nat} (ha : e.advance now = .ok e') :
    Covered e' := by
  have ⟨_, _, heq⟩ := advance_ok ha
  rw [heq]
  exact h

theorem Covered.unregisterIfRegistered (h : Covered e) {a : AlarmCB}
    (hu : e.unregisterIfRegistered a = .ok e') : Covered e' := by
  rcases unregisterIfRegistered_ok hu with ⟨_, heq⟩ | ⟨_, hu⟩
  · rw [heq]
    exact h
  · exact h.unregisterAlarm hu

theorem Covered.update (h : Covered e) (ht : TimerInv e) {a : AlarmCB} {t : Int}
    (hu : e.update a t = .ok e') : Covered e' := by
  have ht' := ht.setAlarm a fun x => { x with deadline := t }
  have h' := h.setAlarm a fun x => { x with deadline := t }
  rcases update_ok hu with ⟨_, hbase⟩ | hr
  · obtain ⟨token, e₁, hr, heq⟩ := baseReregisterAlarm_ok hbase
    rw [heq]
    exact (h'.reregisterAlarm ht' hr).setAlarm _ _
  · exact h'.registerAlarm ht' hr

/-- What holds of the timer and the containers in every state of a run. -/
structure RunInv (e : Ns3QuicAlarmEngine) : Prop extends MapInv e, TimerInv e where
  covered : Covered e

theorem runInv_init (now : Nat) : RunInv (init now) where
  toMapInv := mapInv_init now
  toTimerInv := timerInv_init now
  covered := covered_of_idle rfl

end Ns3QuicAlarmEngine

open Ns3QuicAlarmEngine

theorem runInv_engineStep {e e' : Ns3QuicAlarmEngine} {op : EngineOp} (h : RunInv e)
    (hs : engineStep e op = .ok e') : RunInv e' := by
  refine ⟨mapInv_engineStep h.toMapInv hs, timerInv_engineStep h.toTimerInv hs, ?_⟩
  cases op with
  | advance now => exact h.covered.advance hs
  | timeout ev => exact covered_timeout h.toTimerInv hs
  | callbackReturned r => exact h.covered.callbackReturned h.toTimerInv hs
  | registerAlarm t ac => exact h.covered.registerAlarm h.toTimerInv hs
  | unregisterAlarm token => exact h.covered.unregisterAlarm hs
  | reregisterAlarm token t =>
    obtain ⟨token', hr⟩ := engineStep_reregister_ok hs
    exact h.covered.reregisterAlarm h.toTimerInv hr

theorem runInv_alarmStep {e e' : Ns3QuicAlarmEngine} {op : AlarmOp} (h : RunInv e)
    (hs : alarmStep e op = .ok e') : RunInv e' := by
  have ht := h.toTimerInv
  refine ⟨mapInv_alarmStep h.toMapInv hs, timerInv_alarmStep ht hs, ?_⟩
  cases op with
  | advance now => exact h.covered.advance hs
  | timeout ev => exact covered_timeout ht hs
  | delegateReturned => exact h.covered.callbackReturned ht hs
  | set a d => exact (h.covered.setAlarm _ _).registerAlarm (ht.setAlarm _ _) (onLive_ok hs).2
  | update a d => exact h.covered.update ht (onLive_ok hs).2
  | cancel a => exact (h.covered.setAlarm _ _).unregisterIfRegistered (onLive_ok hs).2
  | destroy a =>
    obtain ⟨e₁, hu, heq⟩ := destroy_ok (onLive_ok hs).2
    rw [heq]
    exact (h.covered.unregisterIfRegistered hu).setAlarm _ _

/-! ## When an alarm can be moved -/

namespace Ns3QuicAlarmEngine

variable {e e' : Ns3QuicAlarmEngine}

/-- `UpdateTimer` succeeds on keys that have not passed, and ends with the timer
running. -/
theorem updateTimer_succeeds (hne : e.alarmMap ≠ []) (hkeys : ∀ i ∈ e.alarmMap, e.nowUs ≤ i.key) :
    ∃ e', e.updateTimer = .ok e' ∧ e'.sim.isRunning e'.timer = true := by
  unfold updateTimer
  generalize (if e.sim.isRunning e.timer then e.sim.cancel e.timer else e.sim) = sim
  cases hm : e.alarmMap with
  | nil => exact absurd hm hne
  | cons i m =>
    have hkey : ¬ i.key < e.nowUs := not_lt.2 (hkeys i (hm ▸ List.mem_cons_self ..))
    dsimp only
    rw [if_neg hkey]
    refine ⟨_, rfl, ?_⟩
    rw [Simulator.isRunning_iff]
    exact ⟨_, List.mem_append_right _ (List.mem_singleton_self _), rfl⟩

theorem rearm_succeeds (update : Bool) (hne : e.alarmMap ≠ [])
    (hkeys : ∀ i ∈ e.alarmMap, e.nowUs ≤ i.key) :
    ∃ e', e.rearm update = .ok e' ∧ e'.sim.isRunning e'.timer = true := by
  unfold rearm
  split_ifs with hu
  · exact updateTimer_succeeds hne hkeys
  · simp only [Bool.or_eq_true, not_or, Bool.not_eq_true, Bool.not_eq_false'] at hu
    exact ⟨e, rfl, hu.1⟩

/-- `ReregisterAlarm` moves the entry `i` to `t`: the token that it returns
designates the only entry of the alarm, the other entries are as they were, and the
timer is pending, no later than any key. -/
def Reregisters (e : Ns3QuicAlarmEngine) (i : MapEntry) (t : Int) : Prop :=
  ∃ token e', e.reregisterAlarm i.node t = .ok (token, e') ∧
    e'.entryAt token = some ⟨t, i.cb, token⟩ ∧ e'.entriesOf i.cb = [⟨t, i.cb, token⟩] ∧
    (e'.alarmMap.filter fun j => j.node ≠ token) =
      (e.alarmMap.filter fun j => j.node ≠ i.node) ∧
    ∃ ev ∈ e'.sim.pending, e'.timer = some ev.uid ∧
      ∀ j ∈ e'.alarmMap, ((ev.ts / 1000 : Nat) : Int) ≤ j.key

/-- An alarm that is the only one is taken out of the map and fails the assertion. -/
theorem reregisterAlarm_sole (h : MapInv e) {i : MapEntry} (hi : i ∈ e.alarmMap)
    (hsole : ∀ j ∈ e.alarmMap, j = i) (t : Int) :
    e.reregisterAlarm i.node t = .error .assertFailed := by
  have hnil : (e.alarmMap.filter fun j => j.node ≠ i.node) = [] := by
    rw [List.filter_eq_nil_iff]
    intro j hj
    rw [hsole j hj]
    simp
  unfold reregisterAlarm
  rw [h.entryAt_node hi]
  simp only [hnil]

/-- With another alarm left, the move succeeds. -/
theorem reregisterAlarm_succeeds (h : RunInv e) {i j : MapEntry} (hi : i ∈ e.alarmMap)
    (hj : j ∈ e.alarmMap) (hne : j ≠ i) {t : Int} (ht : e.nowUs ≤ t) :
    ∃ token e', e.reregisterAlarm i.node t = .ok (token, e') := by
  have hnode : j.node ≠ i.node :=
    fun heq => hne (List.inj_on_of_nodup_map h.nodes_nodup hj hi heq)
  have hleft : j ∈ e.alarmMap.filter fun j => j.node ≠ i.node :=
    List.mem_filter.2 ⟨hj, by simpa using hnode⟩
  unfold reregisterAlarm
  rw [h.entryAt_node hi]
  cases hm : e.alarmMap.filter fun j => j.node ≠ i.node with
  | nil =>
    rw [hm] at hleft
    exact absurd hleft List.not_mem_nil
  | cons next m =>
    have hkeys : ∀ k ∈ (e.emplace t i.cb (next :: m)).alarmMap, e.nowUs ≤ k.key := by
      intro k hk
      rcases Multimap.mem_insertUpper.1 hk with heq | hk
      · rw [heq]
        exact ht
      · rw [← hm] at hk
        exact h.keys_ge k (List.mem_filter.1 hk).1
    have hne : (e.emplace t i.cb (next :: m)).alarmMap ≠ [] :=
      List.ne_nil_of_mem (Multimap.mem_insertUpper.2 (Or.inl rfl))
    obtain ⟨e', hr, hrun⟩ := rearm_succeeds (e := e.emplace t i.cb (next :: m))
      (decide (t < next.key)) hne hkeys
    exact ⟨e.nextNode, e', by simp [hr, hrun, bind, Except.bind]⟩

/-- What a move that succeeds leaves behind. -/
theorem reregisters_of_ok (h : RunInv e) {i : MapEntry} (hi : i ∈ e.alarmMap) {t : Int}
    {token : Nat} (hr : e.reregisterAlarm i.node t = .ok (token, e')) : Reregisters e i t := by
  have hmap := h.toMapInv.reregisterAlarm hr
  have hcovered := h.covered.reregisterAlarm h.toTimerInv hr
  have ⟨i', next, m, hentry, hm, hrearm, hrun, htoken⟩ := reregisterAlarm_ok hr
  have ⟨timer, sim, heq⟩ := rearm_fields hrearm
  have hsame : i' = i := by
    rw [h.entryAt_node hi] at hentry
    exact (Option.some.inj hentry).symm
  rw [hsame] at heq
  rw [← hm] at heq
  have hentries : e'.alarmMap = Multimap.insertUpper MapEntry.key ⟨t, i.cb, token⟩
      (e.alarmMap.filter fun j => j.node ≠ i.node) := by
    rw [heq, htoken]
    rfl
  have hmem : (⟨t, i.cb, token⟩ : MapEntry) ∈ e'.alarmMap := by
    rw [hentries]
    exact Multimap.mem_insertUpper.2 (Or.inl rfl)
  refine ⟨token, e', hr, hmap.entryAt_node hmem, hmap.entriesOf_cb hmem, ?_, ?_⟩
  · rw [hentries]
    apply Multimap.filter_insertUpper
    · simp
    · intro j hj
      have hlt := h.nodes_lt j (List.mem_filter.1 hj).1
      have hne : j.node ≠ token := by omega
      simpa using hne
  · obtain ⟨ev, hev, htimer⟩ := Simulator.isRunning_iff.1 hrun
    exact ⟨ev, hev, htimer, hcovered ev hev⟩

end Ns3QuicAlarmEngine

/-- In every reachable state, inside and outside of `OnTimeout`, an alarm can be moved
to any deadline that has not passed exactly when it is not the only one. -/
theorem reregisters_iff (now₀ : Nat) {e : Ns3QuicAlarmEngine}
    (h : Reachable engineStep (init now₀) e ∨ Reachable alarmStep (init now₀) e) {i : MapEntry}
    (hi : i ∈ e.alarmMap) {t : Int} (ht : e.nowUs ≤ t) :
    Reregisters e i t ↔ ∃ j ∈ e.alarmMap, j ≠ i := by
  have hinv : RunInv e := by
    rcases h with h | h
    · exact h.invariant (runInv_init now₀) fun _ _ _ hs _ => runInv_engineStep hs
    · exact h.invariant (runInv_init now₀) fun _ _ _ hs _ => runInv_alarmStep hs
  constructor
  · intro hmoved
    by_contra hnone
    have hsole : ∀ j ∈ e.alarmMap, j = i :=
      fun j hj => by_contra fun hne => hnone ⟨j, hj, hne⟩
    have ⟨token, e', hr, _⟩ := hmoved
    rw [reregisterAlarm_sole hinv.toMapInv hi hsole t] at hr
    exact absurd hr (by simp)
  · intro hother
    have ⟨j, hj, hne⟩ := hother
    obtain ⟨token, e', hr⟩ := reregisterAlarm_succeeds hinv hi hj hne ht
    exact reregisters_of_ok hinv hi hr

/-- Of two alarms the first is moved behind the second. -/
theorem reregisters_iff_twoAlarms :
    ∃ e, Reachable engineStep (init 0) e ∧ Reregisters e ⟨5, 1, 1⟩ 9 :=
  have hreach : Reachable engineStep (init 0) _ :=
    .tail (a := .registerAlarm 7 2) (.tail (a := .registerAlarm 5 1) .refl trivial rfl) trivial rfl
  ⟨_, hreach, (reregisters_iff 0 (.inl hreach) (by decide) (by decide)).2
    ⟨⟨7, 2, 2⟩, by decide, by decide⟩⟩

/-- An alarm that is set for 5 µs and is the only one cannot be updated to 6 µs. -/
theorem soleAlarm_not_reregistered :
    ∃ e, Reachable alarmStep (init 0) e ∧ ⟨5, 1, 1⟩ ∈ e.alarmMap ∧ e.nowUs ≤ 6 ∧
      e.reregisterAlarm 1 6 = .error .assertFailed ∧
      alarmStep e (.update 1 6) = .error .assertFailed :=
  ⟨_, .tail (a := .set 1 5) .refl trivial rfl, by decide, by decide, rfl, rfl⟩

end QuicOnNs3.Alarm
