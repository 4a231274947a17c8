import QuicOnNs3.Alarm.Machine

/-!
# The timer covers every alarm

`UnregisterAlarm` never touches the timer, and `RegisterAlarm` and
`ReregisterAlarm` leave it alone when the new key does not precede the map.
`TimerInv` is the invariant that survives this: outside of `OnTimeout`, an
engine with an alarm has its timer pending, no later than any key.

Every operation either rebuilds the timer, and then `TimerInv.of_updateTimer`
gives the invariant, or leaves it alone and puts no key below the keys of the
map, and then `TimerInv.of_keys` does.
-/

namespace QuicOnNs3.Alarm

open QuicOnNs3.EventQueue QuicOnNs3.Execution

namespace Ns3QuicAlarmEngine

variable {e e' : Ns3QuicAlarmEngine}

/-- The timer is pending, at a time not yet passed and no later than the
microsecond of any key. -/
def Armed (e : Ns3QuicAlarmEngine) : Prop :=
  ∃ ev ∈ e.sim.pending, e.timer = some ev.uid ∧ e.sim.now ≤ ev.ts ∧
    ∀ i ∈ e.alarmMap, ((ev.ts / 1000 : Nat) : Int) ≤ i.key

/-- The invariant of the timer. -/
structure TimerInv (e : Ns3QuicAlarmEngine) : Prop where
  sorted : Multimap.Sorted MapEntry.key e.alarmMap
  sole : e.sim.Sole e.timer
  pending_ge : ∀ ev ∈ e.sim.pending, e.sim.now ≤ ev.ts
  keys_ge : ∀ i ∈ e.alarmMap, e.nowUs ≤ i.key
  armed : e.frame = none → e.alarmMap ≠ [] → e.Armed

theorem timerInv_init (now : Nat) : TimerInv (init now) where
  sorted := List.Pairwise.nil
  sole := Or.inl rfl
  pending_ge := by simp [init]
  keys_ge := by simp [init]
  armed := by simp [init]

/-! ## `UpdateTimer` -/

/-- `UpdateTimer` leaves no event on an empty map, and otherwise one event at
the first key, which is not before the present. -/
theorem updateTimer_ok (hsole : e.sim.Sole e.timer) (h : e.updateTimer = .ok e') :
    ∃ timer sim, e' = { e with timer := timer, sim := sim } ∧ sim.now = e.sim.now ∧
      ((e.alarmMap = [] ∧ sim.pending = []) ∨
        ∃ i m uid, e.alarmMap = i :: m ∧ e.nowUs ≤ i.key ∧ timer = some uid ∧
          sim.pending = [⟨uid, e.sim.now + (i.key - e.nowUs).toNat * 1000⟩]) := by
  unfold updateTimer at h
  have hstop := hsole.pending_cancel
  have hnow : (if e.sim.isRunning e.timer then e.sim.cancel e.timer else e.sim).now =
      e.sim.now := by
    split <;> rfl
  generalize (if e.sim.isRunning e.timer then e.sim.cancel e.timer else e.sim) = sim
    at h hstop hnow
  split at h
  · rename_i hm
    obtain rfl := by simpa using h
    exact ⟨e.timer, _, rfl, hnow, Or.inl ⟨hm, hstop⟩⟩
  · rename_i i m hm
    split_ifs at h with hkey
    obtain rfl := by simpa using h
    refine ⟨_, _, rfl, hnow, Or.inr ⟨i, m, _, hm, by omega, rfl, ?_⟩⟩
    rw [Simulator.pending_schedule hstop, hnow]

/-- An event at the first key, in nanoseconds, is in the microsecond of that key. -/
theorem micros_add {now : Nat} {key : Int} (h : ((now / 1000 : Nat) : Int) ≤ key) :
    (((now + (key - (now / 1000 : Nat)).toNat * 1000) / 1000 : Nat) : Int) = key := by
  rw [Nat.add_mul_div_right _ _ (by omega)]
  omega

theorem TimerInv.of_updateTimer (hsorted : Multimap.Sorted MapEntry.key e.alarmMap)
    (hsole : e.sim.Sole e.timer) (h : e.updateTimer = .ok e') : TimerInv e' := by
  obtain ⟨timer, sim, rfl, hnow, ⟨hm, hp⟩ | ⟨i, m, uid, hm, hkey, rfl, hp⟩⟩ :=
    updateTimer_ok hsole h
  · exact ⟨hsorted, Or.inl hp, by simp [hp], by simp [hm], by simp [hm]⟩
  · have hmin : ∀ j ∈ e.alarmMap, i.key ≤ j.key := by
      intro j hj
      rw [hm] at hsorted hj
      exact hsorted.head_le hj
    refine ⟨hsorted, Or.inr ⟨_, hp, rfl⟩, ?_, ?_, ?_⟩
    · intro ev hev
      obtain rfl : ev = _ := by simpa [hp] using hev
      simp [hnow]
    · intro j hj
      have hj := hmin j hj
      have heq : nowUs { e with timer := some uid, sim := sim } = e.nowUs := by
        simp [nowUs, hnow]
      omega
    · intro _ _
      refine ⟨_, hp ▸ List.mem_singleton.2 rfl, rfl, by simp [hnow], ?_⟩
      intro j hj
      have hts := micros_add hkey
      simp only [nowUs] at hts ⊢
      exact hts.trans_le (hmin j hj)

/-! ## The operations -/

/-- The timer is left alone, and no key goes below the keys of the map. -/
theorem TimerInv.of_keys (h : TimerInv e) (hsim : e'.sim = e.sim) (htimer : e'.timer = e.timer)
    (hframe : e'.frame = e.frame) (hsorted : Multimap.Sorted MapEntry.key e'.alarmMap)
    (hkeys : ∀ i ∈ e'.alarmMap, ∃ j ∈ e.alarmMap, j.key ≤ i.key) : TimerInv e' where
  sorted := hsorted
  sole := by rw [hsim, htimer]; exact h.sole
  pending_ge := by rw [hsim]; exact h.pending_ge
  keys_ge := by
    intro i hi
    obtain ⟨j, hj, hle⟩ := hkeys i hi
    have hnow := h.keys_ge j hj
    simp only [nowUs, hsim] at hnow ⊢
    omega
  armed := by
    intro hf hne
    obtain ⟨i, hi⟩ := List.exists_mem_of_ne_nil _ hne
    obtain ⟨j, hj, -⟩ := hkeys i hi
    obtain ⟨ev, hev, htm, hge, hcover⟩ := h.armed (hframe ▸ hf) (List.ne_nil_of_mem hj)
    refine ⟨ev, hsim ▸ hev, htimer ▸ htm, hsim ▸ hge, ?_⟩
    intro i hi
    obtain ⟨j, hj, hle⟩ := hkeys i hi
    exact (hcover j hj).trans hle

/-- The fields of the alarms do not matter to the timer. -/
theorem TimerInv.setAlarm (h : TimerInv e) (a : AlarmCB) (f : Ns3Alarm → Ns3Alarm) :
    TimerInv (e.setAlarm a f) :=
  h.of_keys rfl rfl rfl h.sorted fun i hi => ⟨i, hi, le_refl _⟩

/-- `e₁` has the key `t` besides keys of `e`, and where `update` does not ask for
`UpdateTimer` that key is not below one of `e`. -/
structure AddsKey (e e₁ : Ns3QuicAlarmEngine) (t : Int) (update : Bool) : Prop where
  sim : e₁.sim = e.sim
  timer : e₁.timer = e.timer
  frame : e₁.frame = e.frame
  sorted : Multimap.Sorted MapEntry.key e₁.alarmMap
  mem : ∀ i ∈ e₁.alarmMap, i ∈ e.alarmMap ∨ i.key = t
  exists_le : update = false → ∃ j ∈ e.alarmMap, j.key ≤ t

theorem AddsKey.exists_key_le {e₁ : Ns3QuicAlarmEngine} {t : Int} {update : Bool}
    (h : AddsKey e e₁ t update) (hu : update = false) :
    ∀ i ∈ e₁.alarmMap, ∃ j ∈ e.alarmMap, j.key ≤ i.key := by
  intro i hi
  rcases h.mem i hi with hi | hi
  · exact ⟨i, hi, le_refl _⟩
  · rw [hi]
    exact h.exists_le hu

theorem ensureAlarm_addsKey (h : Multimap.Sorted MapEntry.key e.alarmMap) (t : Int)
    (ac : AlarmCB) : AddsKey e (e.ensureAlarm t ac) t (precedes t e.alarmMap) := by
  have hle : precedes t e.alarmMap = false → ∃ j ∈ e.alarmMap, j.key ≤ t := by
    intro hlt
    cases hm : e.alarmMap with
    | nil => simp [precedes, hm] at hlt
    | cons i m => exact ⟨i, by simp, by simpa [precedes, hm] using hlt⟩
  unfold ensureAlarm
  split
  · exact ⟨rfl, rfl, rfl, h, fun i hi => Or.inl hi, hle⟩
  · refine ⟨rfl, rfl, rfl, h.insertUpper _, fun i hi => ?_, hle⟩
    rcases Multimap.mem_insertUpper.1 hi with rfl | hi
    · exact Or.inr rfl
    · exact Or.inl hi

theorem reregisterAlarm_addsKey (h : Multimap.Sorted MapEntry.key e.alarmMap)
    {token token' : Nat} {t : Int} (hr : e.reregisterAlarm token t = .ok (token', e')) :
    ∃ e₁ update, AddsKey e e₁ t update ∧ e₁.rearm update = .ok e' := by
  have ⟨i, next, m, _, hm, hr, _, _⟩ := reregisterAlarm_ok hr
  refine ⟨_, _, ?_, hr⟩
  rw [← hm]
  have hnext : next ∈ e.alarmMap := (List.mem_filter.1 (hm ▸ List.mem_cons_self ..)).1
  refine ⟨rfl, rfl, rfl, (h.sublist List.filter_sublist).insertUpper _, ?_, ?_⟩
  · intro j hj
    rcases Multimap.mem_insertUpper.1 hj with rfl | hj
    · exact Or.inr rfl
    · exact Or.inl (List.mem_filter.1 hj).1
  · intro hlt
    exact ⟨next, hnext, by simpa using hlt⟩

/-- The invariant is kept when a key is added and `UpdateTimer` runs where it has to. -/
theorem TimerInv.of_rearm {e₁ : Ns3QuicAlarmEngine} {t : Int} {update : Bool} (h : TimerInv e)
    (hkey : AddsKey e e₁ t update) (hr : e₁.rearm update = .ok e') : TimerInv e' := by
  unfold rearm at hr
  split_ifs at hr with hu
  · exact .of_updateTimer hkey.sorted (by rw [hkey.sim, hkey.timer]; exact h.sole) hr
  · obtain rfl : e₁ = e' := by simpa using hr
    simp only [Bool.or_eq_true, not_or, Bool.not_eq_true] at hu
    exact h.of_keys hkey.sim hkey.timer hkey.frame hkey.sorted (hkey.exists_key_le hu.2)

theorem TimerInv.registerAlarm (h : TimerInv e) {t : Int} {ac : AlarmCB}
    (hr : e.registerAlarm t ac = .ok e') : TimerInv e' :=
  h.of_rearm (ensureAlarm_addsKey h.sorted _ _) hr

theorem TimerInv.unregisterAlarm (h : TimerInv e) {token : Nat}
    (hu : e.unregisterAlarm token = .ok e') : TimerInv e' := by
  obtain ⟨i, -, rfl⟩ := unregisterAlarm_ok hu
  exact h.of_keys rfl rfl rfl (h.sorted.sublist List.filter_sublist)
    fun j hj => ⟨j, (List.mem_filter.1 hj).1, le_refl _⟩

theorem TimerInv.reregisterAlarm (h : TimerInv e) {token token' : Nat} {t : Int}
    (hr : e.reregisterAlarm token t = .ok (token', e')) : TimerInv e' := by
  have ⟨_, _, hkey, hr⟩ := reregisterAlarm_addsKey h.sorted hr
  exact h.of_rearm hkey hr

theorem TimerInv.unregisterIfRegistered (h : TimerInv e) {a : AlarmCB}
    (hu : e.unregisterIfRegistered a = .ok e') : TimerInv e' := by
  rcases unregisterIfRegistered_ok hu with ⟨-, rfl⟩ | ⟨-, hu⟩
  · exact h
  · exact h.unregisterAlarm hu

theorem TimerInv.update (h : TimerInv e) {a : AlarmCB} {t : Int}
    (hu : e.update a t = .ok e') : TimerInv e' := by
  have h' := h.setAlarm a fun x => { x with deadline := t }
  rcases update_ok hu with ⟨_, hbase⟩ | hr
  · obtain ⟨token, e₁, hr, rfl⟩ := baseReregisterAlarm_ok hbase
    exact (h'.reregisterAlarm hr).setAlarm _ _
  · exact h'.registerAlarm hr

theorem TimerInv.destroy (h : TimerInv e) {a : AlarmCB} (hd : e.destroy a = .ok e') :
    TimerInv e' := by
  obtain ⟨e₁, hu, rfl⟩ := destroy_ok hd
  exact (h.unregisterIfRegistered hu).setAlarm _ _

/-! ## The events of the simulator -/

theorem TimerInv.advance (h : TimerInv e) {now : Nat} (ha : e.advance now = .ok e') :
    TimerInv e' := by
  obtain ⟨hf, hc, rfl⟩ := advance_ok ha
  obtain ⟨-, hts⟩ := Simulator.canAdvance_iff.1 hc
  refine ⟨h.sorted, h.sole, hts, ?_, ?_⟩
  · intro i hi
    obtain ⟨ev, hev, -, -, hcover⟩ := h.armed hf (List.ne_nil_of_mem hi)
    have hle : now / 1000 ≤ ev.ts / 1000 := Nat.div_le_div_right (hts ev hev)
    exact (Int.ofNat_le.2 hle).trans (hcover i hi)
  · intro _ hne
    obtain ⟨ev, hev, htm, -, hcover⟩ := h.armed hf hne
    exact ⟨ev, hev, htm, hts ev hev, hcover⟩

/-- Inside of `OnTimeout` only the keys matter, and its end rebuilds the timer. -/
theorem TimerInv.of_runCallbacks (hsorted : Multimap.Sorted MapEntry.key e.alarmMap)
    (hsole : e.sim.Sole e.timer) (hpending : ∀ ev ∈ e.sim.pending, e.sim.now ≤ ev.ts)
    (hkeys : ∀ i ∈ e.alarmMap, e.nowUs ≤ i.key) {nowUs : Int} {cbs : List AlarmCB}
    (hr : e.runCallbacks nowUs cbs = .ok e') : TimerInv e' := by
  cases cbs with
  | nil => exact .of_updateTimer (e := { e with frame := none }) hsorted hsole hr
  | cons cb rest =>
    obtain ⟨-, rfl⟩ := onAlarm_ok hr
    exact ⟨hsorted, hsole, hpending, hkeys, by simp⟩

theorem TimerInv.timeout (h : TimerInv e) {ev : Event} (ht : e.timeout ev = .ok e') :
    TimerInv e' := by
  obtain ⟨hcan, ht⟩ := timeout_ok ht
  obtain ⟨-, hev, -⟩ := canTimeout_iff.1 hcan
  have hnone := h.sole.pending_execute hev
  refine .of_runCallbacks (h.sorted.sublist (List.dropWhile_sublist _)) (Or.inl hnone) ?_ ?_ ht
  · simp [drain, hnone]
  · intro i hi
    exact (h.sorted.lt_of_mem_dropWhile hi).le

theorem TimerInv.callbackReturned (h : TimerInv e) {r : Int}
    (hr : e.callbackReturned r = .ok e') : TimerInv e' := by
  obtain ⟨fr, -, hr⟩ := callbackReturned_ok hr
  rcases returned_ok hr with hr | ⟨e₁, hreg, hr⟩ | hr
  · obtain ⟨-, rfl⟩ := onAlarm_ok hr
    exact ⟨h.sorted, h.sole, h.pending_ge, h.keys_ge, by simp⟩
  · have h₁ := h.registerAlarm hreg
    exact .of_runCallbacks h₁.sorted h₁.sole h₁.pending_ge h₁.keys_ge hr
  · exact .of_runCallbacks h.sorted h.sole h.pending_ge h.keys_ge hr

end Ns3QuicAlarmEngine

open Ns3QuicAlarmEngine

/-! ## Whole runs -/

theorem timerInv_engineStep {e e' : Ns3QuicAlarmEngine} {op : EngineOp} (h : TimerInv e)
    (hs : engineStep e op = .ok e') : TimerInv e' := by
  cases op with
  | advance now => exact h.advance hs
  | timeout ev => exact h.timeout hs
  | callbackReturned r => exact h.callbackReturned hs
  | registerAlarm t ac => exact h.registerAlarm hs
  | unregisterAlarm token => exact h.unregisterAlarm hs
  | reregisterAlarm token t =>
    obtain ⟨token', hr⟩ := engineStep_reregister_ok hs
    exact h.reregisterAlarm hr

theorem timerInv_alarmStep {e e' : Ns3QuicAlarmEngine} {op : AlarmOp} (h : TimerInv e)
    (hs : alarmStep e op = .ok e') : TimerInv e' := by
  cases op with
  | advance now => exact h.advance hs
  | timeout ev => exact h.timeout hs
  | delegateReturned => exact h.callbackReturned hs
  | set a d => exact (h.setAlarm _ _).registerAlarm (onLive_ok hs).2
  | update a d => exact h.update (onLive_ok hs).2
  | cancel a => exact (h.setAlarm _ _).unregisterIfRegistered (onLive_ok hs).2
  | destroy a => exact h.destroy (onLive_ok hs).2

/-- No wakeup is lost.  In every state outside of `OnTimeout` no key has
passed, and an engine with an alarm has its timer pending no later than the
earliest key, so `OnTimeout` runs no later than the microsecond of any key. -/
theorem timer_covers_alarms (now₀ : Nat) {e : Ns3QuicAlarmEngine}
    (h : Reachable engineStep (init now₀) e) (hf : e.frame = none) :
    (∀ i ∈ e.alarmMap, e.nowUs ≤ i.key) ∧
      (e.alarmMap ≠ [] → ∃ ev ∈ e.sim.pending, e.timer = some ev.uid ∧ e.sim.now ≤ ev.ts ∧
        ∀ i ∈ e.alarmMap, ((ev.ts / 1000 : Nat) : Int) ≤ i.key) ∧
      ∀ ev e', engineStep e (.timeout ev) = .ok e' →
        ∀ i ∈ e.alarmMap, ((ev.ts / 1000 : Nat) : Int) ≤ i.key := by
  have hinv : TimerInv e :=
    h.invariant (timerInv_init now₀) fun _ _ _ hi _ => timerInv_engineStep hi
  refine ⟨hinv.keys_ge, hinv.armed hf, ?_⟩
  intro ev e' ht i hi
  obtain ⟨-, hev, hcan⟩ := canTimeout_iff.1 (timeout_ok ht).1
  obtain ⟨ev', hev', -, -, hcover⟩ := hinv.armed hf (List.ne_nil_of_mem hi)
  have hle := (Simulator.canAdvance_iff.1 hcan).2 ev' hev'
  exact (Int.ofNat_le.2 (Nat.div_le_div_right hle)).trans (hcover i hi)

/-- The earliest of three alarms is unregistered, so `OnTimeout` first runs for nothing.
The callback at 7 µs then registers one alarm, unregisters another, and comes back. -/
def reentered : List EngineOp :=
  [.registerAlarm 5 1, .registerAlarm 7 2, .registerAlarm 9 3, .unregisterAlarm 1,
    .timeout ⟨0, 5000⟩, .timeout ⟨1, 7000⟩, .registerAlarm 8 4, .unregisterAlarm 3,
    .callbackReturned 12]

theorem timer_covers_alarms_reentered :
    ∃ e, Reachable engineStep (init 0) e ∧ e.alarmMap.map MapEntry.cb = [4, 2] ∧
      (∀ i ∈ e.alarmMap, e.nowUs ≤ i.key) ∧
      (e.alarmMap ≠ [] → ∃ ev ∈ e.sim.pending, e.timer = some ev.uid ∧ e.sim.now ≤ ev.ts ∧
        ∀ i ∈ e.alarmMap, ((ev.ts / 1000 : Nat) : Int) ≤ i.key) ∧
      ∀ ev e', engineStep e (.timeout ev) = .ok e' →
        ∀ i ∈ e.alarmMap, ((ev.ts / 1000 : Nat) : Int) ≤ i.key :=
  have hreach : Reachable engineStep (init 0) _ :=
    (by decide : Each engineStep (fun _ _ => True) (init 0) reentered).reach rfl
  ⟨_, hreach, rfl, timer_covers_alarms 0 hreach rfl⟩

end QuicOnNs3.Alarm
