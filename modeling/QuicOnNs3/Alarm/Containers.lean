import Mathlib.Data.List.Perm.Basic
import QuicOnNs3.Alarm.Machine

/-!
# The containers of the engine

`alarm_map_` and `all_alarms_` are updated side by side and never compared.
`MapInv` is what keeps them in step: the entries of the map carry distinct
alarms and distinct nodes, and `all_alarms_` is the set of the alarms they
carry.  It holds in every reachable state of both machines, whatever the flags
and tokens of the alarms are.
-/

namespace QuicOnNs3.Alarm

open QuicOnNs3.EventQueue QuicOnNs3.Execution

namespace Ns3QuicAlarmEngine

variable {e e' : Ns3QuicAlarmEngine}

/-- The containers agree. -/
structure MapInv (e : Ns3QuicAlarmEngine) : Prop where
  cbs_nodup : (e.alarmMap.map MapEntry.cb).Nodup
  nodes_nodup : (e.alarmMap.map MapEntry.node).Nodup
  nodes_lt : ∀ i ∈ e.alarmMap, i.node < e.nextNode
  mem_all : ∀ a, a ∈ e.allAlarms ↔ a ∈ e.alarmMap.map MapEntry.cb

theorem mapInv_init (now : Nat) : MapInv (init now) := by
  constructor <;> simp [init]

/-! ## Looking entries up -/

theorem entryAt_some {token : Nat} {i : MapEntry} (h : e.entryAt token = some i) :
    i ∈ e.alarmMap ∧ i.node = token :=
  ⟨List.mem_of_find?_eq_some h, by simpa using List.find?_some h⟩

theorem MapInv.entryAt_node (h : MapInv e) {i : MapEntry} (hi : i ∈ e.alarmMap) :
    e.entryAt i.node = some i :=
  Multimap.find?_eq_of_nodup h.nodes_nodup hi

theorem MapInv.mem_all_of_mem (h : MapInv e) {i : MapEntry} (hi : i ∈ e.alarmMap) :
    i.cb ∈ e.allAlarms :=
  (h.mem_all _).2 (List.mem_map_of_mem hi)

theorem MapInv.exists_entry (h : MapInv e) {a : AlarmCB} (ha : a ∈ e.allAlarms) :
    ∃ i ∈ e.alarmMap, i.cb = a :=
  List.mem_map.1 ((h.mem_all a).1 ha)

/-- The other entries of the map, and the alarms they carry. -/
theorem MapInv.perm_of_entryAt (h : MapInv e) {token : Nat} {i : MapEntry}
    (hi : e.entryAt token = some i) :
    e.alarmMap.Perm (i :: e.alarmMap.filter fun j => j.node ≠ token) := by
  obtain ⟨hmem, rfl⟩ := entryAt_some hi
  exact Multimap.perm_cons_filter_ne h.nodes_nodup hmem

/-! ## The operations -/

/-- The timer and the clock do not matter to the containers. -/
theorem MapInv.of_timer (h : MapInv e) (hm : e'.alarmMap = e.alarmMap)
    (ha : e'.allAlarms = e.allAlarms) (hn : e'.nextNode = e.nextNode) : MapInv e' := by
  constructor
  · rw [hm]; exact h.cbs_nodup
  · rw [hm]; exact h.nodes_nodup
  · rw [hm, hn]; exact h.nodes_lt
  · rw [hm, ha]; exact h.mem_all

theorem updateTimer_fields (h : e.updateTimer = .ok e') :
    ∃ timer sim, e' = { e with timer := timer, sim := sim } := by
  unfold updateTimer at h
  generalize (if e.sim.isRunning e.timer then e.sim.cancel e.timer else e.sim) = sim at h
  split at h
  · obtain rfl := by simpa using h
    exact ⟨_, _, rfl⟩
  · split_ifs at h
    obtain rfl := by simpa using h
    exact ⟨_, _, rfl⟩

theorem rearm_fields {update : Bool} (h : e.rearm update = .ok e') :
    ∃ timer sim, e' = { e with timer := timer, sim := sim } := by
  unfold rearm at h
  split_ifs at h
  · exact updateTimer_fields h
  · exact ⟨e.timer, e.sim, by simpa using h.symm⟩

theorem registerAlarm_frame {t : Int} {ac : AlarmCB} (h : e.registerAlarm t ac = .ok e') :
    e'.frame = e.frame := by
  obtain ⟨timer, sim, rfl⟩ := rearm_fields h
  change (e.ensureAlarm _ ac).frame = e.frame
  unfold ensureAlarm
  split <;> rfl

theorem unregisterIfRegistered_frame {a : AlarmCB} (h : e.unregisterIfRegistered a = .ok e') :
    e'.frame = e.frame := by
  rcases unregisterIfRegistered_ok h with ⟨-, rfl⟩ | ⟨-, hu⟩
  · rfl
  · obtain ⟨i, -, rfl⟩ := unregisterAlarm_ok hu
    rfl

theorem update_frame {a : AlarmCB} {t : Int} (h : e.update a t = .ok e') :
    e'.frame = e.frame := by
  rcases update_ok h with ⟨_, hbase⟩ | hr
  · obtain ⟨token, e₁, hr, rfl⟩ := baseReregisterAlarm_ok hbase
    obtain ⟨i, next, m, -, -, hr, -, -⟩ := reregisterAlarm_ok hr
    obtain ⟨timer, sim, rfl⟩ := rearm_fields hr
    rfl
  · exact (registerAlarm_frame hr).trans rfl

theorem destroy_frame {a : AlarmCB} (h : e.destroy a = .ok e') : e'.frame = e.frame := by
  obtain ⟨e₁, hu, rfl⟩ := destroy_ok h
  exact (unregisterIfRegistered_frame hu : e₁.frame = e.frame)

theorem MapInv.rearm (h : MapInv e) {update : Bool} (hr : e.rearm update = .ok e') :
    MapInv e' := by
  obtain ⟨timer, sim, rfl⟩ := rearm_fields hr
  exact h.of_timer rfl rfl rfl

/-- A new node in the place of the entries `m` that are left. -/
theorem MapInv.emplace {m : List MapEntry} {i : MapEntry} (h : MapInv e)
    (hp : e.alarmMap.Perm (i :: m)) (t : Int) : MapInv (e.emplace t i.cb m) := by
  have hperm : (e.emplace t i.cb m).alarmMap.Perm (⟨t, i.cb, e.nextNode⟩ :: m) :=
    Multimap.insertUpper_perm _ _
  have hcbs : ((e.emplace t i.cb m).alarmMap.map MapEntry.cb).Perm
      (e.alarmMap.map MapEntry.cb) :=
    (hperm.map _).trans (hp.map MapEntry.cb).symm
  have hlt : ∀ j ∈ m, j.node < e.nextNode :=
    fun j hj => h.nodes_lt j (hp.mem_iff.2 (List.mem_cons_of_mem _ hj))
  constructor
  · exact hcbs.nodup_iff.2 h.cbs_nodup
  · rw [(hperm.map MapEntry.node).nodup_iff, List.map_cons, List.nodup_cons]
    refine ⟨?_, ((hp.map MapEntry.node).nodup_iff.1 h.nodes_nodup).of_cons⟩
    intro hmem
    obtain ⟨j, hj, heq⟩ := List.mem_map.1 hmem
    exact absurd (hlt j hj) (by simp [heq])
  · intro j hj
    rcases List.mem_cons.1 (hperm.mem_iff.1 hj) with rfl | hj
    · exact Nat.lt_succ_self _
    · exact Nat.lt_succ_of_lt (hlt j hj)
  · intro a
    exact (h.mem_all a).trans hcbs.mem_iff.symm

theorem MapInv.insertAlarm (h : MapInv e) {ac : AlarmCB} (hac : ac ∉ e.allAlarms) (t : Int) :
    MapInv (e.insertAlarm t ac) := by
  have hperm : (e.insertAlarm t ac).alarmMap.Perm (⟨t, ac, e.nextNode⟩ :: e.alarmMap) :=
    Multimap.insertUpper_perm _ _
  constructor
  · rw [(hperm.map MapEntry.cb).nodup_iff, List.map_cons, List.nodup_cons]
    exact ⟨fun hmem => hac ((h.mem_all ac).2 hmem), h.cbs_nodup⟩
  · rw [(hperm.map MapEntry.node).nodup_iff, List.map_cons, List.nodup_cons]
    refine ⟨?_, h.nodes_nodup⟩
    intro hmem
    obtain ⟨j, hj, heq⟩ := List.mem_map.1 hmem
    exact absurd (h.nodes_lt j hj) (by simp [heq])
  · intro j hj
    rcases List.mem_cons.1 (hperm.mem_iff.1 hj) with rfl | hj
    · exact Nat.lt_succ_self _
    · exact Nat.lt_succ_of_lt (h.nodes_lt j hj)
  · intro a
    rw [(hperm.map MapEntry.cb).mem_iff, List.map_cons, List.mem_cons, ← h.mem_all]
    exact Finset.mem_insert

theorem MapInv.ensureAlarm (h : MapInv e) (t : Int) (ac : AlarmCB) :
    MapInv (e.ensureAlarm t ac) := by
  unfold Ns3QuicAlarmEngine.ensureAlarm
  split
  · exact h
  · rename_i hac
    exact h.insertAlarm hac t

theorem MapInv.registerAlarm (h : MapInv e) {t : Int} {ac : AlarmCB}
    (hr : e.registerAlarm t ac = .ok e') : MapInv e' :=
  (h.ensureAlarm _ ac).rearm hr

theorem MapInv.unregisterAlarm (h : MapInv e) {token : Nat}
    (hu : e.unregisterAlarm token = .ok e') : MapInv e' := by
  obtain ⟨i, hi, rfl⟩ := unregisterAlarm_ok hu
  have hperm := h.perm_of_entryAt hi
  have hcbs := (hperm.map MapEntry.cb).nodup_iff.1 h.cbs_nodup
  rw [List.map_cons, List.nodup_cons] at hcbs
  constructor
  · exact hcbs.2
  · exact ((hperm.map MapEntry.node).nodup_iff.1 h.nodes_nodup).of_cons
  · exact fun j hj => h.nodes_lt j (List.mem_filter.1 hj).1
  · intro a
    rw [Finset.mem_erase, h.mem_all, (hperm.map MapEntry.cb).mem_iff, List.map_cons,
      List.mem_cons]
    constructor
    · rintro ⟨hne, rfl | ha⟩
      · exact absurd rfl hne
      · exact ha
    · intro ha
      exact ⟨fun heq => hcbs.1 (heq ▸ ha), Or.inr ha⟩

theorem MapInv.reregisterAlarm (h : MapInv e) {token token' : Nat} {t : Int}
    (hr : e.reregisterAlarm token t = .ok (token', e')) : MapInv e' := by
  obtain ⟨i, next, m, hi, hm, hr, -, -⟩ := reregisterAlarm_ok hr
  exact (h.emplace (hm ▸ h.perm_of_entryAt hi) t).rearm hr

theorem mem_foldl_erase {m : List MapEntry} {s : Finset AlarmCB} {a : AlarmCB} :
    a ∈ m.foldl (fun s i => s.erase i.cb) s ↔ a ∈ s ∧ a ∉ m.map MapEntry.cb := by
  induction m generalizing s with
  | nil => simp
  | cons i m ih =>
    rw [List.foldl_cons, ih, Finset.mem_erase, List.map_cons, List.mem_cons]
    tauto

/-- The batch and the entries that stay are the whole map. -/
theorem due_append_drain (e : Ns3QuicAlarmEngine) (nowUs : Int) :
    e.due nowUs ++ (e.drain nowUs).alarmMap = e.alarmMap :=
  List.takeWhile_append_dropWhile

theorem MapInv.drain (h : MapInv e) (nowUs : Int) : MapInv (e.drain nowUs) := by
  have hsub : (e.drain nowUs).alarmMap.Sublist e.alarmMap := List.dropWhile_sublist _
  have hcbs := h.cbs_nodup
  rw [← due_append_drain e nowUs, List.map_append, List.nodup_append'] at hcbs
  constructor
  · exact hcbs.2.1
  · exact h.nodes_nodup.sublist (hsub.map _)
  · exact fun i hi => h.nodes_lt i (hsub.subset hi)
  · intro a
    refine mem_foldl_erase.trans ?_
    rw [h.mem_all, ← due_append_drain e nowUs, List.map_append, List.mem_append]
    constructor
    · rintro ⟨hd | hr, hnd⟩
      · exact absurd hd hnd
      · exact hr
    · intro hr
      exact ⟨Or.inr hr, fun hd => hcbs.2.2 hd hr⟩

theorem MapInv.runCallbacks (h : MapInv e) {nowUs : Int} {cbs : List AlarmCB}
    (hr : e.runCallbacks nowUs cbs = .ok e') : MapInv e' := by
  cases cbs with
  | nil =>
    obtain ⟨timer, sim, rfl⟩ := updateTimer_fields hr
    exact h.of_timer rfl rfl rfl
  | cons cb rest =>
    obtain ⟨-, rfl⟩ := onAlarm_ok hr
    exact h.of_timer rfl rfl rfl

theorem MapInv.timeout (h : MapInv e) {ev : Event} (ht : e.timeout ev = .ok e') :
    MapInv e' := by
  obtain ⟨-, ht⟩ := timeout_ok ht
  have hd : MapInv { e with sim := e.sim.execute ev } := h.of_timer rfl rfl rfl
  exact (hd.drain _).runCallbacks ht

theorem MapInv.callbackReturned (h : MapInv e) {r : Int}
    (hr : e.callbackReturned r = .ok e') : MapInv e' := by
  obtain ⟨fr, -, hr⟩ := callbackReturned_ok hr
  rcases returned_ok hr with hr | ⟨e₁, hreg, hr⟩ | hr
  · obtain ⟨-, rfl⟩ := onAlarm_ok hr
    exact h.of_timer rfl rfl rfl
  · exact (h.registerAlarm hreg).runCallbacks hr
  · exact h.runCallbacks hr

theorem MapInv.setAlarm (h : MapInv e) (a : AlarmCB) (f : Ns3Alarm → Ns3Alarm) :
    MapInv (e.setAlarm a f) :=
  h.of_timer rfl rfl rfl

theorem MapInv.unregisterIfRegistered (h : MapInv e) {a : AlarmCB}
    (hu : e.unregisterIfRegistered a = .ok e') : MapInv e' := by
  rcases unregisterIfRegistered_ok hu with ⟨-, rfl⟩ | ⟨-, hu⟩
  · exact h
  · exact h.unregisterAlarm hu

theorem MapInv.update (h : MapInv e) {a : AlarmCB} {t : Int}
    (hu : e.update a t = .ok e') : MapInv e' := by
  have h' := h.setAlarm a fun x => { x with deadline := t }
  rcases update_ok hu with ⟨_, hbase⟩ | hr
  · obtain ⟨token, e₁, hr, rfl⟩ := baseReregisterAlarm_ok hbase
    exact (h'.reregisterAlarm hr).setAlarm _ _
  · exact h'.registerAlarm hr

theorem MapInv.destroy (h : MapInv e) {a : AlarmCB} (hd : e.destroy a = .ok e') : MapInv e' := by
  obtain ⟨e₁, hu, rfl⟩ := destroy_ok hd
  exact (h.unregisterIfRegistered hu).setAlarm _ _

end Ns3QuicAlarmEngine

open Ns3QuicAlarmEngine

/-! ## Whole runs -/

theorem mapInv_alarmStep {e e' : Ns3QuicAlarmEngine} {op : AlarmOp} (h : MapInv e)
    (hs : alarmStep e op = .ok e') : MapInv e' := by
  cases op with
  | advance now =>
    obtain ⟨-, -, rfl⟩ := advance_ok hs
    exact h.of_timer rfl rfl rfl
  | timeout ev => exact h.timeout hs
  | delegateReturned => exact h.callbackReturned hs
  | set a d => exact (h.setAlarm _ _).registerAlarm (onLive_ok hs).2
  | update a d => exact h.update (onLive_ok hs).2
  | cancel a => exact (h.setAlarm _ _).unregisterIfRegistered (onLive_ok hs).2
  | destroy a => exact h.destroy (onLive_ok hs).2

theorem mapInv_engineStep {e e' : Ns3QuicAlarmEngine} {op : EngineOp} (h : MapInv e)
    (hs : engineStep e op = .ok e') : MapInv e' := by
  cases op with
  | advance now =>
    obtain ⟨_, _, heq⟩ := advance_ok hs
    rw [heq]
    exact h.of_timer rfl rfl rfl
  | timeout ev => exact h.timeout hs
  | callbackReturned r => exact h.callbackReturned hs
  | registerAlarm t ac => exact h.registerAlarm hs
  | unregisterAlarm token => exact h.unregisterAlarm hs
  | reregisterAlarm token t =>
    obtain ⟨token', hr⟩ := engineStep_reregister_ok hs
    exact h.reregisterAlarm hr

/-- In every reachable state the containers agree. -/
theorem mapInv_reachable {now₀ : Nat} {e : Ns3QuicAlarmEngine}
    (h : Reachable alarmStep (init now₀) e) : MapInv e :=
  h.invariant (mapInv_init now₀) fun _ _ _ hi _ => mapInv_alarmStep hi

end QuicOnNs3.Alarm
