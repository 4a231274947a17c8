import QuicOnNs3.Alarm.Reregister

/-!
# Updating an alarm

`UpdateImpl` moves the entry of an armed alarm through `ReregisterAlarm`.  `CancelImpl`
followed by `SetImpl` erases the entry and inserts it again.  The two paths are written
apart, and only `RegisterAlarm` takes a deadline in the past for the present.

`TokenInv` is what both need of the tokens, in every state that operations on alarms
reach, the ones on the batch of an `OnTimeout` included: no two alarms share a token, so
the token of an alarm without an entry designates none.  `updateAgrees_iff` says when
the two paths agree.
-/

namespace QuicOnNs3.Alarm

open QuicOnNs3.EventQueue QuicOnNs3.Execution

namespace Ns3QuicAlarmEngine

variable {e e' : Ns3QuicAlarmEngine}

/-! ## The tokens -/

/-- The tokens of the alarms: an entry is the token of its alarm, and no two alarms that
were ever registered have the same one. -/
structure TokenInv (e : Ns3QuicAlarmEngine) : Prop where
  entry : ∀ i ∈ e.alarmMap, (e.alarms i.cb).token = i.node ∧ 0 < i.node
  lt : ∀ a, (e.alarms a).token < e.nextNode
  inj : ∀ a b, (e.alarms a).token = (e.alarms b).token → 0 < (e.alarms a).token → a = b
  attached : ∀ a, (e.alarms a).registered = true → (e.alarms a).attached = true

theorem tokenInv_init (now : Nat) : TokenInv (init now) := by
  constructor <;> simp [init]

/-- The token of an alarm outside of `all_alarms_` designates no entry. -/
theorem TokenInv.entryAt_none (h : TokenInv e) (hmap : MapInv e) {a : AlarmCB}
    (ha : a ∉ e.allAlarms) : e.entryAt (e.alarms a).token = none := by
  cases hi : e.entryAt (e.alarms a).token with
  | none => rfl
  | some i =>
    obtain ⟨hmem, hnode⟩ := entryAt_some hi
    obtain ⟨htoken, hpos⟩ := h.entry i hmem
    have hcb := h.inj i.cb a (htoken.trans hnode) (htoken ▸ hpos)
    exact absurd (hcb ▸ hmap.mem_all_of_mem hmem) ha

/-- The token of an alarm in `all_alarms_` designates its entry. -/
theorem TokenInv.entryAt_token (h : TokenInv e) (hmap : MapInv e) {a : AlarmCB}
    (ha : a ∈ e.allAlarms) :
    ∃ i ∈ e.alarmMap, i.cb = a ∧ i.node = (e.alarms a).token ∧
      e.entryAt (e.alarms a).token = some i := by
  have ⟨i, hi, hcb⟩ := hmap.exists_entry ha
  have htoken := (h.entry i hi).1
  rw [hcb] at htoken
  exact ⟨i, hi, hcb, htoken.symm, htoken ▸ hmap.entryAt_node hi⟩

/-- Entries are erased and flags are cleared. -/
theorem TokenInv.of_subset (h : TokenInv e) (hm : ∀ i ∈ e'.alarmMap, i ∈ e.alarmMap)
    (hn : e'.nextNode = e.nextNode)
    (hal : ∀ a, (e'.alarms a).token = (e.alarms a).token ∧
      (e'.alarms a).attached = (e.alarms a).attached ∧
      ((e'.alarms a).registered = true → (e.alarms a).registered = true)) : TokenInv e' where
  entry i hi := by
    rw [(hal i.cb).1]
    exact h.entry i (hm i hi)
  lt a := by
    rw [(hal a).1, hn]
    exact h.lt a
  inj a b hab hpos := by
    rw [(hal a).1] at hab hpos
    rw [(hal b).1] at hab
    exact h.inj a b hab hpos
  attached a ha := (hal a).2.1.trans (h.attached a ((hal a).2.2 ha))

/-- A new entry of `a`, the only one, whose node becomes its token. -/
theorem TokenInv.fresh (h : TokenInv e) {a : AlarmCB} {t : Int}
    (hm : ∀ i ∈ e'.alarmMap, i = ⟨t, a, e.nextNode⟩ ∨ i ∈ e.alarmMap ∧ i.cb ≠ a)
    (hn : e'.nextNode = e.nextNode + 1) (hself : (e'.alarms a).token = e.nextNode)
    (hother : ∀ b, b ≠ a → e'.alarms b = e.alarms b)
    (hattached : (e'.alarms a).registered = true → (e'.alarms a).attached = true) :
    TokenInv e' where
  entry i hi := by
    rcases hm i hi with heq | ⟨hmem, hne⟩
    · rw [heq]
      exact ⟨hself, Nat.zero_lt_of_lt (h.lt a)⟩
    · rw [hother i.cb hne]
      exact h.entry i hmem
  lt b := by
    by_cases hb : b = a
    · rw [hb, hself, hn]
      omega
    · have hlt := h.lt b
      rw [hother b hb, hn]
      omega
  inj b c hbc hpos := by
    by_cases hb : b = a <;> by_cases hc : c = a
    · rw [hb, hc]
    · have hlt := h.lt c
      rw [hb, hself, hother c hc] at hbc
      omega
    · have hlt := h.lt b
      rw [hc, hself, hother b hb] at hbc
      omega
    · rw [hother b hb] at hbc hpos
      rw [hother c hc] at hbc
      exact h.inj b c hbc hpos
  attached b hb := by
    by_cases hba : b = a
    · rw [hba] at hb ⊢
      exact hattached hb
    · rw [hother b hba] at hb ⊢
      exact h.attached b hb

/-- The fields other than the token, `engine_` and the flag do not matter, and a flag may
be cleared. -/
theorem TokenInv.setAlarm (h : TokenInv e) (a : AlarmCB) {f : Ns3Alarm → Ns3Alarm}
    (htoken : ∀ x, (f x).token = x.token) (hattached : ∀ x, (f x).attached = x.attached)
    (hreg : ∀ x, (f x).registered = true → x.registered = true) : TokenInv (e.setAlarm a f) := by
  refine h.of_subset (fun _ => id) rfl fun c =>
    ⟨setAlarm_keeps Ns3Alarm.token htoken c, setAlarm_keeps Ns3Alarm.attached hattached c, ?_⟩
  rw [setAlarm_alarms]
  split
  · rename_i hc
    rw [hc]
    exact hreg _
  · exact id

theorem TokenInv.setDeadline (h : TokenInv e) (a : AlarmCB) (d : Int) :
    TokenInv (e.setAlarm a fun x => { x with deadline := d }) :=
  h.setAlarm a (by intro x; rfl) (by intro x; rfl) (by intro x; exact id)

theorem TokenInv.rearm (h : TokenInv e) {update : Bool} (hr : e.rearm update = .ok e') :
    TokenInv e' := by
  have ⟨timer, sim, heq⟩ := rearm_fields hr
  rw [heq]
  exact h.of_subset (fun _ => id) rfl fun _ => ⟨rfl, rfl, id⟩

theorem TokenInv.registerAlarm (h : TokenInv e) (hmap : MapInv e) {t : Int} {ac : AlarmCB}
    (hr : e.registerAlarm t ac = .ok e') : TokenInv e' := by
  refine TokenInv.rearm ?_ hr
  unfold ensureAlarm
  split
  · exact h
  · rename_i hac
    refine h.fresh (a := ac) (t := e.clamp t) ?_ rfl ?_ ?_ ?_
    · intro i hi
      rcases Multimap.mem_insertUpper.1 hi with heq | hmem
      · exact Or.inl heq
      · exact Or.inr ⟨hmem, fun hcb => hac (hcb ▸ hmap.mem_all_of_mem hmem)⟩
    · simp [insertAlarm]
    · intro b hb
      simp [insertAlarm, hb]
    · simp [insertAlarm]

theorem TokenInv.unregisterAlarm (h : TokenInv e) {token : Nat}
    (hu : e.unregisterAlarm token = .ok e') : TokenInv e' := by
  have ⟨i, _, heq⟩ := unregisterAlarm_ok hu
  rw [heq]
  refine h.of_subset (fun j hj => (List.mem_filter.1 hj).1) rfl fun a => ?_
  simp only [Function.update_apply]
  split
  · rename_i ha
    rw [ha]
    exact ⟨rfl, rfl, by simp⟩
  · exact ⟨rfl, rfl, id⟩

theorem TokenInv.unregisterIfRegistered (h : TokenInv e) {a : AlarmCB}
    (hu : e.unregisterIfRegistered a = .ok e') : TokenInv e' := by
  rcases unregisterIfRegistered_ok hu with ⟨_, heq⟩ | ⟨_, hu⟩
  · rw [heq]
    exact h
  · exact h.unregisterAlarm hu

/-- The entry moves, and `token_` with it. -/
theorem TokenInv.baseReregisterAlarm (h : TokenInv e) (hmap : MapInv e) {a : AlarmCB} {t : Int}
    (hr : e.baseReregisterAlarm a t = .ok e') : TokenInv e' := by
  have ⟨token, e₁, hre, heq⟩ := baseReregisterAlarm_ok hr
  have ⟨i, next, m, hi, hm, hrearm, _, htoken⟩ := reregisterAlarm_ok hre
  have ⟨hmem, hnode⟩ := entryAt_some hi
  have ⟨hitoken, hpos⟩ := h.entry i hmem
  have hcb := h.inj i.cb a (hitoken.trans hnode) (hitoken ▸ hpos)
  have ⟨timer, sim, he₁⟩ := rearm_fields hrearm
  have hout : ∀ j ∈ next :: m, j ∈ e.alarmMap ∧ j.cb ≠ a := by
    have hperm := hmap.perm_of_entryAt hi
    rw [hm] at hperm
    have hnot := (List.nodup_cons.1 ((hperm.map MapEntry.cb).nodup_iff.1 hmap.cbs_nodup)).1
    exact fun j hj => ⟨hperm.mem_iff.2 (List.mem_cons_of_mem _ hj),
      fun hja => hnot (List.mem_map.2 ⟨j, hj, hja.trans hcb.symm⟩)⟩
  rw [heq, he₁, hcb, htoken]
  refine h.fresh (a := a) (t := t) ?_ rfl ?_ ?_ ?_
  · intro j hj
    rcases Multimap.mem_insertUpper.1 hj with heq | hj
    · exact Or.inl heq
    · exact Or.inr (hout j hj)
  · rw [setAlarm_alarms, if_pos rfl]
  · intro b hb
    rw [setAlarm_alarms, if_neg hb]
    rfl
  · rw [setAlarm_alarms, if_pos rfl]
    exact h.attached a

theorem TokenInv.update (h : TokenInv e) (hmap : MapInv e) {a : AlarmCB} {t : Int}
    (hu : e.update a t = .ok e') : TokenInv e' := by
  have h' := h.setDeadline a t
  have hmap' := hmap.setAlarm a fun x => { x with deadline := t }
  rcases update_ok hu with ⟨_, hr⟩ | hr
  · exact h'.baseReregisterAlarm hmap' hr
  · exact h'.registerAlarm hmap' hr

theorem TokenInv.destroy (h : TokenInv e) {a : AlarmCB} (hd : e.destroy a = .ok e') :
    TokenInv e' := by
  have ⟨e₁, hu, heq⟩ := destroy_ok hd
  rw [heq]
  exact (h.unregisterIfRegistered hu).setAlarm a (by intro x; rfl) (by intro x; rfl)
    (by intro x; exact id)

theorem TokenInv.runCallbacks (h : TokenInv e) {nowUs : Int} {cbs : List AlarmCB}
    (hr : e.runCallbacks nowUs cbs = .ok e') : TokenInv e' := by
  cases cbs with
  | nil =>
    obtain ⟨timer, sim, heq⟩ := updateTimer_fields hr
    rw [heq]
    exact h.of_subset (fun _ => id) rfl fun _ => ⟨rfl, rfl, id⟩
  | cons cb rest =>
    obtain ⟨_, heq⟩ := onAlarm_ok hr
    have hfired : TokenInv (e.setAlarm cb fun x => { x with registered := false, deadline := 0 }) :=
      h.setAlarm cb (by intro x; rfl) (by intro x; rfl) (by simp)
    rw [heq]
    exact hfired.of_subset (fun _ => id) rfl fun _ => ⟨rfl, rfl, id⟩

theorem TokenInv.timeout (h : TokenInv e) {ev : Event} (ht : e.timeout ev = .ok e') :
    TokenInv e' := by
  rw [timeout_eq (timeout_ok ht).1] at ht
  refine TokenInv.runCallbacks ?_ ht
  exact h.of_subset (fun _ hi => (List.dropWhile_sublist _).subset hi) rfl
    fun _ => ⟨rfl, rfl, id⟩

end Ns3QuicAlarmEngine

open Ns3QuicAlarmEngine

theorem tokenInv_alarmStep {e e' : Ns3QuicAlarmEngine} {op : AlarmOp} (h : TokenInv e)
    (hmap : MapInv e) (hs : alarmStep e op = .ok e') : TokenInv e' := by
  cases op with
  | advance now =>
    obtain ⟨_, _, heq⟩ := advance_ok hs
    rw [heq]
    exact h.of_subset (fun _ => id) rfl fun _ => ⟨rfl, rfl, id⟩
  | timeout ev => exact h.timeout hs
  | delegateReturned =>
    obtain ⟨fr, _, hr⟩ := callbackReturned_ok hs
    exact h.runCallbacks (returned_zero (e := e) fr ▸ hr)
  | set a d => exact (h.setDeadline a d).registerAlarm (hmap.setAlarm _ _) (onLive_ok hs).2
  | update a d => exact h.update hmap (onLive_ok hs).2
  | cancel a => exact (h.setDeadline a 0).unregisterIfRegistered (onLive_ok hs).2
  | destroy a => exact h.destroy (onLive_ok hs).2

/-- In every state that operations on alarms reach, the timer, the containers and the
tokens are in order. -/
theorem tokenInv_reachable {now₀ : Nat} {e : Ns3QuicAlarmEngine}
    (h : Reachable alarmStep (init now₀) e) : RunInv e ∧ TokenInv e :=
  h.invariant (I := fun e => RunInv e ∧ TokenInv e) ⟨runInv_init now₀, tokenInv_init now₀⟩
    fun _ _ _ hi _ hs => ⟨runInv_alarmStep hi.1 hs, tokenInv_alarmStep hi.2 hi.1.toMapInv hs⟩

/-! ## The two paths -/

namespace Ns3QuicAlarmEngine

variable {e e' : Ns3QuicAlarmEngine} {a : AlarmCB} {d : Int}

/-- `CancelImpl` followed by `SetImpl`. -/
def cancelSet (e : Ns3QuicAlarmEngine) (a : AlarmCB) (deadline : Int) :
    Except Fault Ns3QuicAlarmEngine := do
  let e ← e.cancel a
  e.set a deadline

/-- The timer is pending no later than the earliest key. -/
def TimerFirst (e : Ns3QuicAlarmEngine) : Prop :=
  ∃ ev ∈ e.sim.pending, e.timer = some ev.uid ∧
    ∀ i ∈ e.alarmMap, ((ev.ts / 1000 : Nat) : Int) ≤ i.key

/-- Neither path fails an assertion, and both leave the same entries in the same order,
the same set and the same flags, with the timer pending no later than the earliest key. -/
def UpdateAgrees (e : Ns3QuicAlarmEngine) (a : AlarmCB) (d : Int) : Prop :=
  ∃ e₁ e₂, e.update a d = .ok e₁ ∧ e.cancelSet a d = .ok e₂ ∧
    e₁.alarmMap.map (fun i => (i.key, i.cb)) = e₂.alarmMap.map (fun i => (i.key, i.cb)) ∧
    e₁.allAlarms = e₂.allAlarms ∧
    (∀ b, (e₁.alarms b).registered = (e₂.alarms b).registered) ∧
    e₁.TimerFirst ∧ e₂.TimerFirst

/-- The entries of the other alarms, and the new one of `a`. -/
def moved (e : Ns3QuicAlarmEngine) (a : AlarmCB) (d : Int) : List MapEntry :=
  Multimap.insertUpper MapEntry.key ⟨d, a, e.nextNode⟩
    (e.alarmMap.filter fun j => j.node ≠ (e.alarms a).token)

theorem RunInv.setAlarm (h : RunInv e) (a : AlarmCB) (f : Ns3Alarm → Ns3Alarm) :
    RunInv (e.setAlarm a f) :=
  ⟨h.toMapInv.setAlarm a f, h.toTimerInv.setAlarm a f, h.covered.setAlarm a f⟩

theorem Covered.timerFirst (h : Covered e) (hrun : e.sim.isRunning e.timer = true) :
    TimerFirst e :=
  have ⟨ev, hev, htimer⟩ := Simulator.isRunning_iff.1 hrun
  ⟨ev, hev, htimer, h ev hev⟩

/-- `CancelImpl` on an alarm that has an entry. -/
theorem cancel_entry (ha : (e.alarms a).registered = true)
    (hattached : (e.alarms a).attached = true) {i : MapEntry}
    (hentry : e.entryAt (e.alarms a).token = some i) (hcb : i.cb = a) :
    e.cancel a = .ok { e with
      alarmMap := e.alarmMap.filter fun j => j.node ≠ (e.alarms a).token
      allAlarms := e.allAlarms.erase a
      alarms := Function.update e.alarms a
        { e.alarms a with deadline := 0, registered := false } } := by
  have hentry' : (e.setAlarm a fun x => { x with deadline := 0 }).entryAt (e.alarms a).token =
      some i := hentry
  unfold Ns3QuicAlarmEngine.cancel Ns3QuicAlarmEngine.unregisterIfRegistered
  simp only [setAlarm_alarms, if_true, ha, hattached, Ns3QuicAlarmEngine.unregisterAlarm, hentry',
    hcb]
  simp [Ns3QuicAlarmEngine.setAlarm]

/-- `RegisterAlarm` succeeds on every deadline, and ends with the timer running. -/
theorem registerAlarm_succeeds (h : RunInv e) (t : Int) (ac : AlarmCB) :
    ∃ e', e.registerAlarm t ac = .ok e' ∧ e'.sim.isRunning e'.timer = true := by
  have hclamp : e.nowUs ≤ e.clamp t := by
    unfold clamp
    split <;> omega
  have hadds := ensureAlarm_addsKey h.sorted (e.clamp t) ac
  apply rearm_succeeds
  · unfold ensureAlarm
    split
    · rename_i hac
      obtain ⟨i, hi, _⟩ := h.exists_entry hac
      exact List.ne_nil_of_mem hi
    · exact List.ne_nil_of_mem (Multimap.mem_insertUpper.2 (Or.inl rfl))
  · intro i hi
    rw [Ns3QuicAlarmEngine.nowUs, hadds.sim]
    rcases hadds.mem i hi with hmem | hkey
    · exact h.keys_ge i hmem
    · rw [hkey]
      exact hclamp

/-- `UpdateTimer` fails its assertion on a first key in the past. -/
theorem updateTimer_past {i : MapEntry} {m : List MapEntry} (hm : e.alarmMap = i :: m)
    (hkey : i.key < e.nowUs) : e.updateTimer = .error .assertFailed := by
  unfold updateTimer
  rw [hm]
  exact if_pos hkey

/-- `UpdateImpl` succeeds only on an alarm with an entry, beside another one, and with a
deadline that has not passed. -/
theorem update_ok_cond (h : RunInv e) (htoken : TokenInv e)
    (ha : (e.alarms a).registered = true) (hu : e.update a d = .ok e') :
    a ∈ e.allAlarms ∧ (∃ j ∈ e.alarmMap, j.cb ≠ a) ∧ e.nowUs ≤ d := by
  rw [update_registered ha] at hu
  have ⟨token, e₁, hre, _⟩ := baseReregisterAlarm_ok hu
  have ⟨i, next, m, hi, hm, hrearm, _⟩ := reregisterAlarm_ok hre
  have hself : ((e.setAlarm a fun x => { x with deadline := d }).alarms a).token =
      (e.alarms a).token := by
    rw [setAlarm_alarms, if_pos rfl]
  rw [hself] at hi hm
  have hmem : a ∈ e.allAlarms := by
    by_contra hnot
    have hnone := htoken.entryAt_none h.toMapInv hnot
    exact absurd (hnone.symm.trans hi) (by simp)
  have hnext := List.mem_filter.1 (hm ▸ List.mem_cons_self .. : next ∈ e.alarmMap.filter _)
  refine ⟨hmem, ⟨next, hnext.1, fun hcb => ?_⟩, ?_⟩
  · have hnode := (htoken.entry next hnext.1).1
    rw [hcb] at hnode
    simp [hnode] at hnext
  · by_contra hpast
    have hlt : d < next.key := by
      have hge := h.keys_ge next hnext.1
      omega
    have hfail : (emplace (e.setAlarm a fun x => { x with deadline := d }) d i.cb
        (next :: m)).rearm (decide (d < next.key)) = .error .assertFailed := by
      unfold rearm
      rw [decide_eq_true hlt, Bool.or_true, if_pos rfl]
      refine updateTimer_past (i := ⟨d, i.cb, e.nextNode⟩) (m := next :: m) ?_ (not_le.1 hpast)
      exact Multimap.insertUpper_cons_of_lt hlt
    rw [hfail] at hrearm
    simp at hrearm

/-- What `UpdateImpl` leaves. -/
theorem update_succeeds (h : RunInv e) (htoken : TokenInv e)
    (ha : (e.alarms a).registered = true) (hmem : a ∈ e.allAlarms)
    (hother : ∃ j ∈ e.alarmMap, j.cb ≠ a) (hd : e.nowUs ≤ d) :
    ∃ e₁, e.update a d = .ok e₁ ∧ e₁.alarmMap = e.moved a d ∧ e₁.allAlarms = e.allAlarms ∧
      (∀ b, (e₁.alarms b).registered = (e.alarms b).registered) ∧ e₁.TimerFirst := by
  have hs := h.setAlarm a fun x => { x with deadline := d }
  have ⟨i, hi, hcb, hnode, hentry⟩ := htoken.entryAt_token h.toMapInv hmem
  have ⟨j, hj, hja⟩ := hother
  have hne : j ≠ i := fun hji => hja (by rw [hji, hcb])
  have ⟨token, e', hre⟩ := reregisterAlarm_succeeds hs hi hj hne hd
  have hu : e.update a d = .ok (e'.setAlarm a fun x => { x with token := token }) := by
    rw [update_registered ha, Ns3QuicAlarmEngine.baseReregisterAlarm]
    simp only [setAlarm_alarms, if_true]
    rw [if_pos (htoken.attached a ha), ← hnode, hre]
  have ⟨i', next, m, hi', hm, hrearm, hrun, _⟩ := reregisterAlarm_ok hre
  have hsame : i' = i := Option.some.inj (hi'.symm.trans (hs.entryAt_node hi))
  have ⟨timer, sim, heq⟩ := rearm_fields hrearm
  have halarms : e'.alarms = (e.setAlarm a fun x => { x with deadline := d }).alarms := by
    rw [heq]
    rfl
  refine ⟨_, hu, ?_, ?_, fun b => ?_, (h.covered.update h.toTimerInv hu).timerFirst hrun⟩
  · rw [heq, ← hm, hsame, hcb, moved, ← hnode]
    rfl
  · rw [heq]
    rfl
  · refine (setAlarm_keeps Ns3Alarm.registered (by intro x; rfl) b).trans ?_
    rw [halarms]
    exact setAlarm_keeps Ns3Alarm.registered (by intro x; rfl) b

/-- What `CancelImpl` followed by `SetImpl` leaves. -/
theorem cancelSet_succeeds (h : RunInv e) (htoken : TokenInv e)
    (ha : (e.alarms a).registered = true) (hmem : a ∈ e.allAlarms) (hd : e.nowUs ≤ d) :
    ∃ e₂, e.cancelSet a d = .ok e₂ ∧ e₂.alarmMap = e.moved a d ∧ e₂.allAlarms = e.allAlarms ∧
      (∀ b, (e₂.alarms b).registered = (e.alarms b).registered) ∧ e₂.TimerFirst := by
  have hs := h.setAlarm a fun x => { x with deadline := 0 }
  have ⟨i, hi, hcb, hnode, hentry⟩ := htoken.entryAt_token h.toMapInv hmem
  have hc := cancel_entry ha (htoken.attached a ha) hentry hcb
  generalize he₁ : ({ e with
      alarmMap := e.alarmMap.filter fun j => j.node ≠ (e.alarms a).token
      allAlarms := e.allAlarms.erase a
      alarms := Function.update e.alarms a
        { e.alarms a with deadline := 0, registered := false } } : Ns3QuicAlarmEngine) = e₁ at hc
  have h₁ : RunInv e₁ := ⟨hs.toMapInv.unregisterIfRegistered hc,
    hs.toTimerInv.unregisterIfRegistered hc, hs.covered.unregisterIfRegistered hc⟩
  have h₁' := h₁.setAlarm a fun x => { x with deadline := d }
  have ⟨e₂, hr, hrun⟩ := registerAlarm_succeeds h₁' d a
  have hcs : e.cancelSet a d = .ok e₂ := bind_ok_iff.2 ⟨e₁, hc, hr⟩
  have hclamp : (e₁.setAlarm a fun x => { x with deadline := d }).clamp d = d := by
    rw [← he₁]
    exact if_neg (not_lt.2 hd)
  have hout : a ∉ (e₁.setAlarm a fun x => { x with deadline := d }).allAlarms := by
    rw [← he₁]
    exact Finset.notMem_erase a e.allAlarms
  have ⟨timer, sim, heq⟩ := rearm_fields hr
  rw [hclamp, ensureAlarm, if_neg hout] at heq
  refine ⟨e₂, hcs, ?_, ?_, fun b => ?_,
    (h₁'.covered.registerAlarm h₁'.toTimerInv hr).timerFirst hrun⟩
  · rw [heq, ← he₁]
    rfl
  · rw [heq, ← he₁]
    exact Finset.insert_erase hmem
  · rw [heq, ← he₁]
    by_cases hb : b = a
    · rw [hb, ha]
      simp [insertAlarm]
    · simp [insertAlarm, Ns3QuicAlarmEngine.setAlarm, hb]

end Ns3QuicAlarmEngine

/-- On a registered alarm, updating agrees with cancelling and setting again exactly when
the alarm has an entry, another alarm has one, and the deadline has not passed. -/
theorem updateAgrees_iff (now₀ : Nat) {e : Ns3QuicAlarmEngine}
    (h : Reachable alarmStep (init now₀) e) {a : AlarmCB} (ha : (e.alarms a).registered = true)
    (d : Int) :
    UpdateAgrees e a d ↔
      a ∈ e.allAlarms ∧ (∃ j ∈ e.alarmMap, j.cb ≠ a) ∧ e.nowUs ≤ d := by
  have ⟨hinv, htoken⟩ := tokenInv_reachable h
  constructor
  · intro ⟨e₁, _, hu, _⟩
    exact update_ok_cond hinv htoken ha hu
  · intro ⟨hmem, hother, hd⟩
    obtain ⟨e₁, hu, hmap₁, hall₁, hreg₁, htimer₁⟩ :=
      update_succeeds hinv htoken ha hmem hother hd
    obtain ⟨e₂, hcs, hmap₂, hall₂, hreg₂, htimer₂⟩ := cancelSet_succeeds hinv htoken ha hmem hd
    refine ⟨e₁, e₂, hu, hcs, ?_, hall₁.trans hall₂.symm,
      fun b => (hreg₁ b).trans (hreg₂ b).symm, htimer₁, htimer₂⟩
    rw [hmap₁, hmap₂]

/-- Of two alarms, one is updated to a later deadline. -/
theorem updateAgrees_iff_twoAlarms :
    ∃ e, Reachable alarmStep (init 0) e ∧ UpdateAgrees e 1 9 :=
  have hreach : Reachable alarmStep (init 0) _ :=
    .tail (a := .set 2 7) (.tail (a := .set 1 5) .refl trivial rfl) trivial rfl
  ⟨_, hreach, (updateAgrees_iff 0 hreach (by decide) 9).2
    ⟨by decide, ⟨⟨7, 2, 2⟩, by decide, by decide⟩, by decide⟩⟩

/-- Of two alarms, one is updated at 3 µs to the deadline 2 µs: `UpdateImpl` fails the
assertion of `UpdateTimer`, and cancelling and setting again succeeds. -/
theorem pastDeadline_not_agrees :
    ∃ e, Reachable alarmStep (init 0) e ∧ (e.alarms 1).registered = true ∧
      (∃ j ∈ e.alarmMap, j.cb ≠ 1) ∧ alarmStep e (.update 1 2) = .error .assertFailed ∧
      (∃ e₂, e.cancelSet 1 2 = .ok e₂) ∧ ¬ UpdateAgrees e 1 2 := by
  have hreach : Reachable alarmStep (init 0) _ :=
    .tail (a := .advance 3000)
      (.tail (a := .set 2 7) (.tail (a := .set 1 5) .refl trivial rfl) trivial rfl) trivial rfl
  refine ⟨_, hreach, by decide, ⟨⟨7, 2, 2⟩, by decide, by decide⟩, rfl, ⟨_, rfl⟩, ?_⟩
  intro ⟨e₁, e₂, hu, _⟩
  exact absurd hu (by intro h; cases h)

end QuicOnNs3.Alarm
