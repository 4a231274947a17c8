import QuicOnNs3.Alarm.UpdateAlarm

/-!
# Operations from callbacks

`OnTimeout` takes the entries that are due out of the containers and then runs their
delegates, which re-enter the engine and issue operations on any alarm.

`Touches` is what one such operation does to the map: the entries of the other alarms
stay as they are, and an entry of its own alarm is erased, or inserted with a new node.
An operation on an alarm of the batch fails, or it breaks the `QUICHE_DCHECK_EQ` of
`OnRegistration`, so `CallInv` holds in every state of a run that keeps to it.
-/

namespace QuicOnNs3.Alarm

open QuicOnNs3.EventQueue QuicOnNs3.Execution

/-- The alarm that an operation is on. -/
def AlarmOp.alarm : AlarmOp → Option AlarmCB
  | .set a _ | .update a _ | .cancel a | .destroy a => some a
  | _ => none

namespace Ns3QuicAlarmEngine

variable {e e₁ e' : Ns3QuicAlarmEngine} {a : AlarmCB} {op : AlarmOp}

/-! ## One operation on one alarm -/

/-- An operation on `a` keeps the entries of the map, perhaps without the one that the
token of `a` designates, and may insert one of `a` with a new node. -/
structure Touches (e : Ns3QuicAlarmEngine) (a : AlarmCB) (e' : Ns3QuicAlarmEngine) : Prop where
  frame : e'.frame = e.frame
  now : e'.sim.now = e.sim.now
  map : ∃ kept, (kept = e.alarmMap ∨
      kept = e.alarmMap.filter fun j => j.node ≠ (e.alarms a).token) ∧
    (e'.alarmMap = kept ∨
      ∃ t, e'.alarmMap = Multimap.insertUpper MapEntry.key ⟨t, a, e.nextNode⟩ kept)

theorem updateTimer_now (h : e.updateTimer = .ok e') : e'.sim.now = e.sim.now := by
  have hnow : (if e.sim.isRunning e.timer then e.sim.cancel e.timer else e.sim).now =
      e.sim.now := by
    split <;> rfl
  unfold updateTimer at h
  generalize (if e.sim.isRunning e.timer then e.sim.cancel e.timer else e.sim) = sim at h hnow
  split at h
  · rw [← Except.ok.inj h]
    exact hnow
  · split_ifs at h
    rw [← Except.ok.inj h]
    exact hnow

theorem rearm_now {update : Bool} (h : e.rearm update = .ok e') : e'.sim.now = e.sim.now := by
  unfold rearm at h
  split_ifs at h
  · exact updateTimer_now h
  · rw [← Except.ok.inj h]

/-- The fields of `a` other than its token do not matter. -/
theorem Touches.of_setAlarm {f : Ns3Alarm → Ns3Alarm} (hf : ∀ x, (f x).token = x.token)
    (h : Touches (e.setAlarm a f) a e') : Touches e a e' := by
  refine ⟨h.frame, h.now, ?_⟩
  have hmap := h.map
  rw [setAlarm_alarms, if_pos rfl, hf] at hmap
  exact hmap

theorem Touches.setAlarm (h : Touches e a e') (f : Ns3Alarm → Ns3Alarm) :
    Touches e a (e'.setAlarm a f) :=
  ⟨h.frame, h.now, h.map⟩

theorem Touches.refl (e : Ns3QuicAlarmEngine) (a : AlarmCB) : Touches e a e :=
  ⟨rfl, rfl, _, Or.inl rfl, Or.inl rfl⟩

theorem registerAlarm_touches {t : Int} (h : e.registerAlarm t a = .ok e') : Touches e a e' := by
  have hframe := registerAlarm_frame h
  have hnow := rearm_now h
  have ⟨timer, sim, heq⟩ := rearm_fields h
  have hmap : e'.alarmMap = (e.ensureAlarm (e.clamp t) a).alarmMap := by rw [heq]
  unfold ensureAlarm at hnow hmap
  refine ⟨hframe, ?_, e.alarmMap, Or.inl rfl, ?_⟩
  · rw [hnow]
    split <;> rfl
  · rw [hmap]
    split
    · exact Or.inl rfl
    · exact Or.inr ⟨e.clamp t, rfl⟩

theorem unregisterIfRegistered_touches (h : e.unregisterIfRegistered a = .ok e') :
    Touches e a e' := by
  rcases unregisterIfRegistered_ok h with ⟨_, heq⟩ | ⟨_, hu⟩
  · rw [heq]
    exact Touches.refl e a
  · obtain ⟨i, _, heq⟩ := unregisterAlarm_ok hu
    rw [heq]
    exact ⟨rfl, rfl, _, Or.inr rfl, Or.inl rfl⟩

/-- The alarm whose entry a token of `a` designates is `a`. -/
theorem TokenInv.entryAt_cb (h : TokenInv e) {i : MapEntry}
    (hi : e.entryAt (e.alarms a).token = some i) : i.cb = a := by
  have ⟨hmem, hnode⟩ := entryAt_some hi
  have ⟨htoken, hpos⟩ := h.entry i hmem
  exact h.inj i.cb a (htoken.trans hnode) (htoken ▸ hpos)

theorem baseReregisterAlarm_touches (h : TokenInv e) {t : Int}
    (hr : e.baseReregisterAlarm a t = .ok e') : Touches e a e' := by
  have ⟨token, e₁, hre, heq⟩ := baseReregisterAlarm_ok hr
  have ⟨i, next, m, hi, hm, hrearm, _⟩ := reregisterAlarm_ok hre
  have ⟨timer, sim, he₁⟩ := rearm_fields hrearm
  have htouches : Touches e a e₁ := by
    refine ⟨?_, (rearm_now hrearm).trans rfl, _, Or.inr rfl, Or.inr ⟨t, ?_⟩⟩
    · rw [he₁]
      rfl
    · rw [he₁, hm, ← h.entryAt_cb hi]
      rfl
  rw [heq]
  exact htouches.setAlarm _

/-- What the operations on an alarm do. -/
theorem alarmStep_touches (h : TokenInv e) (hop : op.alarm = some a)
    (hs : alarmStep e op = .ok e') : Touches e a e' := by
  cases op with
  | set b d =>
    obtain rfl := Option.some.inj hop
    exact (registerAlarm_touches (onLive_ok hs).2).of_setAlarm (by intro x; rfl)
  | update b d =>
    obtain rfl := Option.some.inj hop
    have hu := (onLive_ok hs).2
    refine Touches.of_setAlarm (f := fun x => { x with deadline := d }) (by intro x; rfl) ?_
    rcases update_ok hu with ⟨_, hr⟩ | hr
    · exact baseReregisterAlarm_touches (h.setDeadline b d) hr
    · exact registerAlarm_touches hr
  | cancel b =>
    obtain rfl := Option.some.inj hop
    exact (unregisterIfRegistered_touches (onLive_ok hs).2).of_setAlarm (by intro x; rfl)
  | destroy b =>
    obtain rfl := Option.some.inj hop
    obtain ⟨e₁, hu, heq⟩ := destroy_ok (onLive_ok hs).2
    rw [heq]
    exact (unregisterIfRegistered_touches hu).setAlarm _
  | _ => simp [AlarmOp.alarm] at hop

/-- The entries of the other alarms stay as they are. -/
theorem Touches.entriesOf (h : Touches e a e') (htoken : TokenInv e) {b : AlarmCB} (hb : b ≠ a) :
    e'.entriesOf b = e.entriesOf b := by
  have ⟨kept, hkept, hmap⟩ := h.map
  have hother : kept.filter (fun i => decide (i.cb = b)) = e.entriesOf b := by
    rcases hkept with heq | heq
    · rw [heq]
      rfl
    · rw [heq, List.filter_filter]
      refine List.filter_congr fun i hi => ?_
      by_cases hib : i.cb = b
      · have hnode : i.node ≠ (e.alarms a).token := by
          intro hnode
          obtain ⟨hcb, hpos⟩ := htoken.entry i hi
          exact hb (hib.symm.trans (htoken.inj i.cb a (hcb.trans hnode) (hcb ▸ hpos)))
        simp [hib, hnode]
      · simp [hib]
  rcases hmap with heq | ⟨t, heq⟩
  · unfold Ns3QuicAlarmEngine.entriesOf at hother ⊢
    rw [heq, hother]
  · unfold Ns3QuicAlarmEngine.entriesOf at hother ⊢
    rw [heq, Multimap.filter_insertUpper_of_neg, hother]
    simpa using fun hab : a = b => hb hab.symm

/-- The entries are in key order, and those of one key in the order of their
registrations, which number the nodes. -/
def Ordered (e : Ns3QuicAlarmEngine) : Prop :=
  Multimap.Stable MapEntry.key MapEntry.node e.alarmMap

theorem Ordered.sublist (h : Ordered e) (hs : e'.alarmMap.Sublist e.alarmMap) : Ordered e' :=
  Multimap.Stable.sublist h hs

theorem Touches.ordered (h : Touches e a e') (hmap : MapInv e) (ho : Ordered e) : Ordered e' := by
  have ⟨kept, hkept, hmapped⟩ := h.map
  have hsub : kept.Sublist e.alarmMap := by
    rcases hkept with heq | heq
    · rw [heq]
    · rw [heq]
      exact List.filter_sublist
  have hkeptOrdered := Multimap.Stable.sublist ho hsub
  unfold Ordered
  rcases hmapped with heq | ⟨t, heq⟩
  · rw [heq]
    exact hkeptOrdered
  · rw [heq]
    exact hkeptOrdered.insertUpper fun j hj => hmap.nodes_lt j (hsub.subset hj)

theorem Touches.batch (h : Touches e a e') : e'.batch = e.batch := by
  rw [Ns3QuicAlarmEngine.batch, h.frame]
  rfl

/-- An alarm that is registered and has no entry, as those of the batch, cannot be
unregistered. -/
theorem unregisterIfRegistered_out (htoken : TokenInv e) (hmap : MapInv e)
    (ha : (e.alarms a).registered = true) (hout : a ∉ e.allAlarms) :
    e.unregisterIfRegistered a = .error .erasedToken := by
  unfold Ns3QuicAlarmEngine.unregisterIfRegistered Ns3QuicAlarmEngine.unregisterAlarm
  rw [if_pos ha, if_pos (htoken.attached a ha), htoken.entryAt_none hmap hout]

end Ns3QuicAlarmEngine

open Ns3QuicAlarmEngine

/-! ## The invariant of the calls -/

/-- `QUICHE_DCHECK_EQ(false, registered_)` of `OnRegistration` holds when the operation
comes to it. -/
def DcheckHolds (e : Ns3QuicAlarmEngine) : AlarmOp → Prop
  | .set a _ => a ∉ e.allAlarms → (e.alarms a).registered = false
  | _ => True

instance decidableDcheckHolds (e : Ns3QuicAlarmEngine) : ∀ op, Decidable (DcheckHolds e op)
  | .set a _ => inferInstanceAs (Decidable (a ∉ e.allAlarms → (e.alarms a).registered = false))
  | .update .. | .cancel _ | .destroy _ | .advance _ | .timeout _ | .delegateReturned =>
    isTrue trivial

/-- What holds in every state of a run, inside and outside of `OnTimeout`. -/
structure CallInv (e : Ns3QuicAlarmEngine) : Prop where
  run : RunInv e
  token : TokenInv e
  reg : RegInv e e.batch
  ordered : Ordered e

theorem callInv_init (now : Nat) : CallInv (init now) where
  run := runInv_init now
  token := tokenInv_init now
  reg := regInv_init now
  ordered := List.Pairwise.nil

section Step

variable {e e' : Ns3QuicAlarmEngine} {op : AlarmOp} {a : AlarmCB}

theorem CallInv.batch_registered (h : CallInv e) (ha : a ∈ e.batch) :
    (e.alarms a).registered = true :=
  (h.reg.registered a).2 (Or.inr ha)

/-- An operation that succeeds, and keeps to the `QUICHE_DCHECK_EQ`, is not on an alarm
of the batch. -/
theorem CallInv.sparesBatch (h : CallInv e) (hd : DcheckHolds e op)
    (hs : alarmStep e op = .ok e') : SparesBatch e op := by
  have hout := h.reg.batch_out
  have hmap := h.run.toMapInv
  cases op with
  | set a d =>
    intro ha
    have hreg := hd (hout a ha)
    rw [h.batch_registered ha] at hreg
    simp at hreg
  | update a d =>
    intro ha
    have hin := (update_ok_cond h.run h.token (h.batch_registered ha) (onLive_ok hs).2).1
    exact hout a ha hin
  | cancel a =>
    intro ha
    have hreg : ((e.setAlarm a fun x => { x with deadline := 0 }).alarms a).registered = true := by
      rw [setAlarm_keeps Ns3Alarm.registered (by intro x; rfl), h.batch_registered ha]
    have hfault := unregisterIfRegistered_out (h.token.setDeadline a 0) (hmap.setAlarm a _)
      hreg (hout a ha)
    rw [alarmStep, onLive, if_pos (onLive_ok hs).1, Ns3QuicAlarmEngine.cancel, hfault] at hs
    simp at hs
  | destroy a =>
    intro ha
    have hfault := unregisterIfRegistered_out h.token hmap (h.batch_registered ha) (hout a ha)
    obtain ⟨e₁, hu, _⟩ := destroy_ok (onLive_ok hs).2
    rw [hfault] at hu
    simp at hu
  | _ => trivial

theorem ordered_runCallbacks (h : Ordered e) {nowUs : Int} {cbs : List AlarmCB}
    (hr : e.runCallbacks nowUs cbs = .ok e') : Ordered e' := by
  cases cbs with
  | nil =>
    obtain ⟨timer, sim, heq⟩ := updateTimer_fields hr
    rw [heq]
    exact h
  | cons cb rest =>
    obtain ⟨_, heq⟩ := onAlarm_ok hr
    rw [heq]
    exact h

theorem CallInv.ordered_step (h : CallInv e) (hs : alarmStep e op = .ok e') : Ordered e' := by
  have htouches : ∀ a, op.alarm = some a → Ordered e' := fun a hop =>
    (alarmStep_touches h.token hop hs).ordered h.run.toMapInv h.ordered
  cases op with
  | advance now =>
    obtain ⟨_, _, heq⟩ := advance_ok hs
    rw [heq]
    exact h.ordered
  | timeout ev =>
    have ht := (timeout_ok hs).1
    rw [alarmStep, timeout_eq ht] at hs
    exact ordered_runCallbacks (h.ordered.sublist (List.dropWhile_sublist _)) hs
  | delegateReturned =>
    obtain ⟨fr, _, hr⟩ := callbackReturned_ok hs
    exact ordered_runCallbacks h.ordered (returned_zero (e := e) fr ▸ hr)
  | set a d => exact htouches a rfl
  | update a d => exact htouches a rfl
  | cancel a => exact htouches a rfl
  | destroy a => exact htouches a rfl

theorem CallInv.step (h : CallInv e) (hd : DcheckHolds e op) (hs : alarmStep e op = .ok e') :
    CallInv e' where
  run := runInv_alarmStep h.run hs
  token := tokenInv_alarmStep h.token h.run.toMapInv hs
  reg := regInv_alarmStep h.reg (h.sparesBatch hd hs) hs
  ordered := h.ordered_step hs

end Step

theorem callInv_reach {now₀ : Nat} {e : Ns3QuicAlarmEngine}
    (h : Reach alarmStep DcheckHolds (init now₀) e) : CallInv e :=
  h.invariant (callInv_init now₀) fun _ _ _ hi hd hs => hi.step hd hs

end QuicOnNs3.Alarm
