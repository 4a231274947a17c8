import Mathlib.Data.List.Chain
import QuicOnNs3.Alarm.Deadlines
import QuicOnNs3.Server.Echo

/-!
# The channel that fills a stream

The client of the bandwidth test opens one stream with a `BandwidthWriteChannel`.
`StartFillData` writes up to six chunks of 1500 bytes and arms an alarm for 50 ms
later, whose delegate is `OnTimeout`: it writes as much again and arms the alarm
again.  The stream may also ask for more data at any time, with `OnCanWrite`.

The channel shares the alarm engine with all alarms of the connection, and its calls
of `Write` set some of them, so its own code is cut where that can happen
(`Stage`).  A step of `bandwidthStep` is a piece of that code, or any step of the
engine that is not on the channel's alarm.

* `fills_every_period`: the timer fills the stream every 50 ms to the microsecond,
  misses no period, and never calls a channel that has been destroyed.
* `write_bytes_counted`: `write_bytes_` is the number of bytes that the stream has
  accepted, modulo 2^32, and no call writes more than six chunks.
-/

namespace QuicOnNs3.Client

open QuicOnNs3.Alarm QuicOnNs3.Execution QuicOnNs3.Scheduling

open QuicOnNs3.Server (QuicStream Written SendingStream sendingStream)

open QuicOnNs3.Alarm.Ns3QuicAlarmEngine (init startedBy scheduler actions alarmStep_touches)

/-! ## The channel -/

def kWritePackets : Nat := 6

/-- `kWriteDelta`, in microseconds. -/
def kWriteDelta : Int := 50000

/-- `kContent` after `ContentInit`. -/
def contentInit (v : UInt8) : List UInt8 := List.replicate 1500 v

/-- How far the code of a channel has come. -/
inductive Stage where
  /-- Before `StartFillData`. -/
  | built
  /-- In `StartFillData`, after `WriteData`. -/
  | starting
  | waiting
  /-- At the start of `OnTimeout`. -/
  | called
  /-- In `OnTimeout`, after `WriteData`. -/
  | refilled
  | destroyed
  deriving DecidableEq, Repr

/-- The code of the channel is on the call stack. -/
def Stage.busy : Stage → Bool
  | .starting | .called | .refilled => true
  | .built | .waiting | .destroyed => false

/-- `BandwidthWriteChannel`, with its alarm, and `stream` when `stream_` is not null.  The
history is the times at which `StartFillData` and `OnTimeout` wrote, what `Write` was
called with, and the number of calls of `WriteData`. -/
structure BandwidthWriteChannel where
  alarm : AlarmCB
  stream : Bool := true
  writeBytes : UInt32 := 0
  stage : Stage := .built
  fills : List Int := []
  written : List Written := []
  calls : Nat := 0
  deriving DecidableEq, Repr

/-- The engine of a client and its channel. -/
structure BandwidthClient where
  engine : Ns3QuicAlarmEngine
  channel : BandwidthWriteChannel

section WriteData

variable {σ : Type*} (S : QuicStream σ) (kContent : List UInt8)

/-- The loop of `WriteData`: `write_bytes_`, and what `Write` was called with. -/
def writeLoop : Nat → UInt32 → σ → UInt32 × List Written
  | 0, writeBytes, _ => (writeBytes, [])
  | n + 1, writeBytes, s =>
    let success := S.write s (some kContent) false
    if !success.1 then (writeBytes, [⟨kContent, false⟩])
    else
      let rest := writeLoop n (writeBytes + 1500) success.2
      (rest.1, ⟨kContent, true⟩ :: rest.2)

/-- `BandwidthWriteChannel::WriteData` on the stream in the state `found`. -/
def BandwidthWriteChannel.writeData (c : BandwidthWriteChannel) (found : σ) :
    BandwidthWriteChannel :=
  let c := { c with calls := c.calls + 1 }
  if c.stream then
    let result := writeLoop S kContent kWritePackets c.writeBytes found
    { c with writeBytes := result.1, written := c.written ++ result.2 }
  else c

/-! ## The machine -/

/-- A piece of the channel's code, with the stream as it finds it, or a step of the
engine. -/
inductive BandwidthOp (σ : Type*) where
  | engine (op : AlarmOp)
  | startFillData (found : σ)
  | setAlarm
  | onTimeout (found : σ)
  | updateAlarm
  | onCanWrite (found : σ)
  | onDestroy

namespace BandwidthClient

/-- `StartFillData` and `OnTimeout` up to the call on the alarm. -/
def fill (c : BandwidthClient) (found : σ) (stage : Stage) : BandwidthClient :=
  { c with channel := { c.channel.writeData S kContent found with
      stage := stage
      fills := c.channel.fills ++ [c.engine.nowUs] } }

/-- The alarm is armed for `now+kWriteDelta`. -/
def rearm (c : BandwidthClient) (op : AlarmCB → Int → AlarmOp) : Except Fault BandwidthClient := do
  let e ← alarmStep c.engine (op c.channel.alarm (c.engine.nowUs + kWriteDelta))
  .ok { c with engine := e, channel := { c.channel with stage := .waiting } }

/-- `if(alarm_->IsSet()) alarm_->Cancel()`. -/
def cancelIfSet (e : Ns3QuicAlarmEngine) (a : AlarmCB) : Except Fault Ns3QuicAlarmEngine :=
  if (e.alarms a).deadline ≠ 0 then alarmStep e (.cancel a) else .ok e

/-- `OnDestroy`, and then the destructor. -/
def destroy (c : BandwidthClient) : Except Fault BandwidthClient := do
  let e ← cancelIfSet c.engine c.channel.alarm
  let e ← cancelIfSet e c.channel.alarm
  let e ← alarmStep e (.destroy c.channel.alarm)
  .ok { c with engine := e, channel := { c.channel with stage := .destroyed } }

/-- A step of the engine.  It starts the delegate of the channel when that is the next
callback. -/
def engineStep (c : BandwidthClient) (op : AlarmOp) : Except Fault BandwidthClient := do
  let e ← alarmStep c.engine op
  if c.channel.alarm ∈ startedBy op e then
    .ok { c with engine := e, channel := { c.channel with stage := .called } }
  else .ok { c with engine := e }

/-- The engine may take the step `op`: it is not on the channel's alarm, and while the
code of the channel runs it is a call on another alarm. -/
def mayRun (c : BandwidthClient) (op : AlarmOp) : Bool :=
  op.alarm ≠ some c.channel.alarm && (!c.channel.stage.busy || op.alarm.isSome)

end BandwidthClient

/-- One step. -/
def bandwidthStep (c : BandwidthClient) : BandwidthOp σ → Except Fault BandwidthClient
  | .engine op => if c.mayRun op then c.engineStep op else .error .notEnabled
  | .startFillData found =>
    if c.channel.stage = .built then .ok (c.fill S kContent found .starting)
    else .error .notEnabled
  | .setAlarm => if c.channel.stage = .starting then c.rearm .set else .error .notEnabled
  | .onTimeout found =>
    if c.channel.stage = .called then .ok (c.fill S kContent found .refilled)
    else .error .notEnabled
  | .updateAlarm => if c.channel.stage = .refilled then c.rearm .update else .error .notEnabled
  | .onCanWrite found =>
    if c.channel.stage = .destroyed then .error .notEnabled
    else .ok { c with channel := c.channel.writeData S kContent found }
  | .onDestroy =>
    if c.channel.stage = .built || c.channel.stage = .waiting then c.destroy
    else .error .notEnabled

/-- The constructor, with an engine that has just been built. -/
def BandwidthClient.new (now₀ : Nat) (a : AlarmCB) : BandwidthClient :=
  ⟨init now₀, { alarm := a }⟩

/-- `DcheckHolds` for the steps that are not the channel's own. -/
def EngineDcheckHolds (c : BandwidthClient) : BandwidthOp σ → Prop
  | .engine op => DcheckHolds c.engine op
  | _ => True

end WriteData

/-! ## The engine under the channel -/

/-- The engine keeps its invariant, and its scheduler has the deadlines. -/
structure Clocked (e : Ns3QuicAlarmEngine) (deadlines : AlarmCB → Option Int) : Prop where
  calls : CallInv e
  tracks : Tracks e.scheduler deadlines

section Clocked

variable {e e' : Ns3QuicAlarmEngine} {op : AlarmOp} {a : AlarmCB} {d : Int}
  {deadlines : AlarmCB → Option Int}

theorem Clocked.step (h : Clocked e deadlines) (hd : DcheckHolds e op)
    (hs : alarmStep e op = .ok e') : Clocked e' ((e.actions op).foldl ledger deadlines) where
  calls := h.calls.step hd hs
  tracks := h.tracks.steps (alarmStep_refines h.calls hd hs)

/-- An operation on an alarm takes no time. -/
theorem Clocked.nowUs_eq (h : Clocked e deadlines) (hop : op.alarm = some a)
    (hs : alarmStep e op = .ok e') : e'.nowUs = e.nowUs := by
  rw [Ns3QuicAlarmEngine.nowUs, (alarmStep_touches h.calls.token hop hs).now]
  rfl

/-- `Set` of an alarm that has no deadline. -/
theorem Clocked.set (h : Clocked e deadlines) (hnone : deadlines a = none) (hle : e.nowUs ≤ d)
    (hs : alarmStep e (.set a d) = .ok e') :
    ∃ deadlines', Clocked e' deadlines' ∧ deadlines' a = some d := by
  obtain ⟨hout, hreg⟩ := h.calls.out_of_none h.tracks hnone
  have hd : DcheckHolds e (.set a d) := fun _ => hreg
  exact ⟨_, h.step hd hs, ledger_registerActions hout hle⟩

/-- `Update` of an alarm that has no deadline. -/
theorem Clocked.update (h : Clocked e deadlines) (hnone : deadlines a = none) (hle : e.nowUs ≤ d)
    (hs : alarmStep e (.update a d) = .ok e') :
    ∃ deadlines', Clocked e' deadlines' ∧ deadlines' a = some d := by
  obtain ⟨hout, hreg⟩ := h.calls.out_of_none h.tracks hnone
  refine ⟨_, h.step (by trivial : DcheckHolds e (.update a d)) hs, ?_⟩
  rw [actions, hreg, if_neg Bool.false_ne_true]
  exact ledger_registerActions hout hle

theorem Clocked.cancelIfSet (h : Clocked e deadlines)
    (hs : BandwidthClient.cancelIfSet e a = .ok e') : ∃ deadlines', Clocked e' deadlines' := by
  unfold BandwidthClient.cancelIfSet at hs
  split_ifs at hs
  · exact ⟨_, h.step (by trivial : DcheckHolds e (.cancel a)) hs⟩
  · obtain rfl := Except.ok.inj hs
    exact ⟨_, h⟩

end Clocked

/-! ## The periods -/

/-- Each time is one period after the one before it. -/
def Spaced (fills : List Int) : Prop := fills.IsChain fun s t => t = s + kWriteDelta

namespace BandwidthClient

/-- The deadline of the channel's alarm: one period after it wrote, while it waits. -/
def due (c : BandwidthClient) : Option Int :=
  if c.channel.stage = .waiting then c.channel.fills.getLast?.map (· + kWriteDelta) else none

/-- When the channel wrote last, by its stage. -/
def LastFill (c : BandwidthClient) : Prop :=
  match c.channel.stage with
  | .built => c.channel.fills = []
  | .starting | .refilled => c.channel.fills.getLast? = some c.engine.nowUs
  | .called => c.channel.fills.getLast?.map (· + kWriteDelta) = some c.engine.nowUs
  | .waiting => c.channel.fills ≠ []
  | .destroyed => True

end BandwidthClient

/-- What holds in every state of a run. -/
structure BandwidthInv (c : BandwidthClient) (deadlines : AlarmCB → Option Int) : Prop where
  clocked : Clocked c.engine deadlines
  spaced : Spaced c.channel.fills
  due : deadlines c.channel.alarm = c.due
  last : c.LastFill

section Step

variable {σ : Type*} {S : QuicStream σ} {kContent : List UInt8} {c c' : BandwidthClient}
  {deadlines : AlarmCB → Option Int}

theorem bandwidthInv_new (now₀ : Nat) (a : AlarmCB) :
    BandwidthInv (BandwidthClient.new now₀ a) fun _ => none where
  clocked := ⟨callInv_init now₀, tracks_init now₀⟩
  spaced := .nil
  due := rfl
  last := rfl

/-- `WriteData` changes the counters alone. -/
theorem writeData_keeps (S : QuicStream σ) (kContent : List UInt8) (ch : BandwidthWriteChannel)
    (found : σ) :
    (ch.writeData S kContent found).alarm = ch.alarm ∧
      (ch.writeData S kContent found).stage = ch.stage ∧
      (ch.writeData S kContent found).fills = ch.fills := by
  unfold BandwidthWriteChannel.writeData
  dsimp only
  split_ifs
  · exact ⟨rfl, rfl, rfl⟩
  · exact ⟨rfl, rfl, rfl⟩

theorem spaced_concat {fills : List Int} {t : Int} (h : Spaced fills)
    (hlast : ∀ s ∈ fills.getLast?, t = s + kWriteDelta) : Spaced (fills ++ [t]) := by
  refine List.isChain_append.2 ⟨h, .singleton t, ?_⟩
  intro s hs u hu
  obtain rfl : t = u := by simpa using hu
  exact hlast s hs

/-- Writing in the code of the channel, one period after the last time. -/
theorem BandwidthInv.fill (h : BandwidthInv c deadlines) {found : σ} {stage : Stage}
    (hnone : c.due = none)
    (hlast : ∀ s ∈ c.channel.fills.getLast?, c.engine.nowUs = s + kWriteDelta)
    (hstage : stage = .starting ∨ stage = .refilled) :
    BandwidthInv (c.fill S kContent found stage) deadlines := by
  obtain ⟨halarm, _, _⟩ := writeData_keeps S kContent c.channel found
  refine ⟨h.clocked, spaced_concat h.spaced hlast, ?_, ?_⟩
  · show deadlines (c.channel.writeData S kContent found).alarm = _
    rw [halarm, h.due, hnone]
    rcases hstage with rfl | rfl <;> rfl
  · rcases hstage with rfl | rfl
    · exact List.getLast?_concat
    · exact List.getLast?_concat

/-- Arming the alarm, which has no deadline, after having written. -/
theorem BandwidthInv.rearm (h : BandwidthInv c deadlines) {op : AlarmCB → Int → AlarmOp}
    (hnone : c.due = none) (hlast : c.channel.fills.getLast? = some c.engine.nowUs)
    (harm : ∀ a d e e', Clocked e deadlines → deadlines a = none → e.nowUs ≤ d →
      alarmStep e (op a d) = .ok e' → ∃ deadlines', Clocked e' deadlines' ∧ deadlines' a = some d)
    (hs : c.rearm op = .ok c') : ∃ deadlines', BandwidthInv c' deadlines' := by
  obtain ⟨e, hstep, heq⟩ := bind_ok_iff.1 hs
  obtain rfl := Except.ok.inj heq
  have hle : c.engine.nowUs ≤ c.engine.nowUs + kWriteDelta := by
    unfold kWriteDelta
    omega
  obtain ⟨deadlines', hclocked, hdue⟩ := harm _ _ _ _ h.clocked (h.due.trans hnone) hle hstep
  refine ⟨deadlines', hclocked, h.spaced, hdue.trans ?_, ?_⟩
  · show _ = Option.map _ c.channel.fills.getLast?
    rw [hlast]
    rfl
  · show c.channel.fills ≠ []
    intro hnil
    simp [hnil] at hlast

/-- A step of the engine that is not on the channel's alarm. -/
theorem BandwidthInv.engineStep (h : BandwidthInv c deadlines) {op : AlarmOp}
    (hd : DcheckHolds c.engine op) (hrun : c.mayRun op = true) (hs : c.engineStep op = .ok c') :
    ∃ deadlines', BandwidthInv c' deadlines' := by
  obtain ⟨e, hstep, heq⟩ := bind_ok_iff.1 hs
  simp only [BandwidthClient.mayRun, Bool.and_eq_true, decide_eq_true_eq] at hrun
  obtain ⟨hop, hbusy⟩ := hrun
  have hclocked := h.clocked.step hd hstep
  refine ⟨(c.engine.actions op).foldl ledger deadlines, ?_⟩
  split_ifs at heq with hstarted
  · -- the delegate starts at its deadline, so the channel was waiting
    obtain rfl := Except.ok.inj heq
    have hdue := started_on_time h.clocked.calls h.clocked.tracks hd hstep hstarted
    rw [h.due] at hdue
    refine ⟨hclocked, h.spaced, ledger_started hstep hstarted, ?_⟩
    unfold BandwidthClient.due at hdue
    split_ifs at hdue
    exact hdue
  · obtain rfl := Except.ok.inj heq
    refine ⟨hclocked, h.spaced, (ledger_actions _ hstep hop hstarted).trans h.due, ?_⟩
    have hlast := h.last
    have hnow : c.channel.stage.busy = true → e.nowUs = c.engine.nowUs := by
      intro hb
      rw [hb] at hbusy
      obtain ⟨b, hb⟩ := Option.isSome_iff_exists.1 (by simpa using hbusy)
      exact h.clocked.nowUs_eq hb hstep
    unfold BandwidthClient.LastFill at hlast ⊢
    dsimp only
    split
    · rename_i hst
      simpa [hst] using hlast
    · rename_i hst
      rw [hnow (by rw [hst]; rfl)]
      simpa [hst] using hlast
    · rename_i hst
      rw [hnow (by rw [hst]; rfl)]
      simpa [hst] using hlast
    · rename_i hst
      rw [hnow (by rw [hst]; rfl)]
      simpa [hst] using hlast
    · rename_i hst
      simpa [hst] using hlast
    · trivial

/-- `OnDestroy` and the destructor leave no deadline. -/
theorem BandwidthInv.destroy (h : BandwidthInv c deadlines) (hs : c.destroy = .ok c') :
    ∃ deadlines', BandwidthInv c' deadlines' := by
  obtain ⟨e₁, hcancel, hs⟩ := bind_ok_iff.1 hs
  obtain ⟨e₂, hcancel', hs⟩ := bind_ok_iff.1 hs
  obtain ⟨e, hdestroy, heq⟩ := bind_ok_iff.1 hs
  obtain rfl := Except.ok.inj heq
  obtain ⟨_, h₁⟩ := h.clocked.cancelIfSet hcancel
  obtain ⟨_, h₂⟩ := h₁.cancelIfSet hcancel'
  have hclocked := h₂.step (by trivial : DcheckHolds e₂ (.destroy c.channel.alarm)) hdestroy
  exact ⟨_, hclocked, h.spaced, Function.update_self .., trivial⟩

theorem BandwidthInv.step (h : BandwidthInv c deadlines) {op : BandwidthOp σ}
    (hd : EngineDcheckHolds c op) (hs : bandwidthStep S kContent c op = .ok c') :
    ∃ deadlines', BandwidthInv c' deadlines' := by
  have hlast := h.last
  unfold BandwidthClient.LastFill at hlast
  cases op with
  | engine op =>
    rw [bandwidthStep] at hs
    split_ifs at hs with hrun
    exact h.engineStep hd hrun hs
  | startFillData found =>
    rw [bandwidthStep] at hs
    split_ifs at hs with hst
    obtain rfl := Except.ok.inj hs
    rw [hst] at hlast
    refine ⟨deadlines, h.fill ?_ ?_ (Or.inl rfl)⟩
    · rw [BandwidthClient.due, hst]
      rfl
    · intro s hmem
      simp only at hlast
      simp [hlast] at hmem
  | setAlarm =>
    rw [bandwidthStep] at hs
    split_ifs at hs with hst
    rw [hst] at hlast
    have hnone : c.due = none := by
      rw [BandwidthClient.due, hst]
      rfl
    exact h.rearm hnone hlast (fun a d e e' he hn hle hs => he.set hn hle hs) hs
  | onTimeout found =>
    rw [bandwidthStep] at hs
    split_ifs at hs with hst
    obtain rfl := Except.ok.inj hs
    rw [hst] at hlast
    refine ⟨deadlines, h.fill ?_ ?_ (Or.inr rfl)⟩
    · rw [BandwidthClient.due, hst]
      rfl
    · intro s hmem
      rw [Option.mem_def] at hmem
      simp only [hmem, Option.map_some, Option.some.injEq] at hlast
      exact hlast.symm
  | updateAlarm =>
    rw [bandwidthStep] at hs
    split_ifs at hs with hst
    rw [hst] at hlast
    have hnone : c.due = none := by
      rw [BandwidthClient.due, hst]
      rfl
    exact h.rearm hnone hlast (fun a d e e' he hn hle hs => he.update hn hle hs) hs
  | onCanWrite found =>
    rw [bandwidthStep] at hs
    split_ifs at hs with hst
    obtain rfl := Except.ok.inj hs
    obtain ⟨halarm, hstage, hfills⟩ :=
      writeData_keeps S kContent c.channel found
    have hdue : ({ c with channel := c.channel.writeData S kContent found } :
        BandwidthClient).due = c.due := by
      rw [BandwidthClient.due, BandwidthClient.due]
      dsimp only
      rw [hstage, hfills]
    refine ⟨deadlines, h.clocked, ?_, ?_, ?_⟩
    · rw [hfills]
      exact h.spaced
    · rw [hdue, halarm]
      exact h.due
    · unfold BandwidthClient.LastFill
      rw [hstage, hfills]
      exact hlast
  | onDestroy =>
    rw [bandwidthStep] at hs
    split_ifs at hs
    exact h.destroy hs

theorem bandwidthInv_run {ops : List (BandwidthOp σ)} (h : BandwidthInv c deadlines)
    (hd : Each (bandwidthStep S kContent) EngineDcheckHolds c ops)
    (hrun : ops.foldlM (bandwidthStep S kContent) c = .ok c') :
    ∃ deadlines', BandwidthInv c' deadlines' :=
  hd.run_keeps (I := fun c => ∃ deadlines, BandwidthInv c deadlines)
    (fun _ _ _ hi hc hs => hi.choose_spec.step hc hs) ⟨deadlines, h⟩ hrun

/-- A channel that has been destroyed is not touched again. -/
theorem BandwidthInv.destroyed_stays (h : BandwidthInv c deadlines)
    (hst : c.channel.stage = .destroyed) {op : BandwidthOp σ} (hd : EngineDcheckHolds c op)
    (hs : bandwidthStep S kContent c op = .ok c') : c'.channel = c.channel := by
  cases op with
  | engine op =>
    rw [bandwidthStep] at hs
    split_ifs at hs
    obtain ⟨e, hstep, heq⟩ := bind_ok_iff.1 hs
    split_ifs at heq with hstarted
    · have hdue := started_on_time h.clocked.calls h.clocked.tracks hd hstep hstarted
      rw [h.due, BandwidthClient.due, hst] at hdue
      simp at hdue
    · rw [← Except.ok.inj heq]
  | startFillData found => simp [bandwidthStep, hst] at hs
  | setAlarm => simp [bandwidthStep, hst] at hs
  | onTimeout found => simp [bandwidthStep, hst] at hs
  | updateAlarm => simp [bandwidthStep, hst] at hs
  | onCanWrite found => simp [bandwidthStep, hst] at hs
  | onDestroy => simp [bandwidthStep, hst] at hs

/-- While the channel waits, its next period has not passed. -/
theorem BandwidthInv.waits (h : BandwidthInv c deadlines) (hst : c.channel.stage = .waiting) :
    ∃ t, c.channel.fills.getLast? = some t ∧ c.engine.nowUs ≤ t + kWriteDelta := by
  have hne := h.last
  have hdue := h.due
  unfold BandwidthClient.LastFill at hne
  rw [hst] at hne
  rw [BandwidthClient.due, if_pos hst, List.getLast?_eq_some_getLast hne] at hdue
  exact ⟨_, List.getLast?_eq_some_getLast hne, h.clocked.tracks.le_deadline hdue⟩

end Step

/-! ## The bytes -/

/-- The bytes that the stream has accepted. -/
def acceptedBytes (written : List Written) : List UInt8 :=
  (written.filter (·.accepted)).flatMap (·.bytes)

/-- The stream asks for data. -/
def BandwidthOp.asks {σ : Type*} : BandwidthOp σ → Bool
  | .onCanWrite _ => true
  | _ => false

/-- The counters of a channel agree with what it wrote. -/
structure WriteInv (ch : BandwidthWriteChannel) (kContent : List UInt8) : Prop where
  writeBytes : ch.writeBytes = 1500 * UInt32.ofNat (ch.written.countP (·.accepted))
  chunks : ∀ w ∈ ch.written, w.bytes = kContent
  calls : ch.written.length ≤ kWritePackets * ch.calls

section Bytes

variable {σ : Type*} {S : QuicStream σ} {kContent : List UInt8} {c c' : BandwidthClient}
  {ch : BandwidthWriteChannel} {op : BandwidthOp σ} {ops : List (BandwidthOp σ)}

/-- The loop of `WriteData` counts the chunks that were accepted. -/
theorem writeLoop_spec (S : QuicStream σ) (kContent : List UInt8) (n : Nat) (writeBytes : UInt32)
    (s : σ) :
    (writeLoop S kContent n writeBytes s).1 = writeBytes +
        1500 * UInt32.ofNat ((writeLoop S kContent n writeBytes s).2.countP (·.accepted)) ∧
      (writeLoop S kContent n writeBytes s).2.length ≤ n ∧
      ∀ w ∈ (writeLoop S kContent n writeBytes s).2, w.bytes = kContent := by
  induction n generalizing writeBytes s with
  | zero => simp [writeLoop]
  | succ n ih =>
    rw [writeLoop]
    dsimp only
    split_ifs with hsuccess
    · simp
    · obtain ⟨hbytes, hlen, hchunks⟩ :=
        ih (writeBytes + 1500) (S.write s (some kContent) false).2
      refine ⟨?_, ?_, ?_⟩
      · show (writeLoop S kContent n _ _).1 = _
        rw [hbytes, List.countP_cons_of_pos (by rfl), UInt32.ofNat_add]
        grind
      · simp only [List.length_cons]
        omega
      · intro w hw
        rcases List.mem_cons.1 hw with rfl | hw
        · rfl
        · exact hchunks w hw

theorem WriteInv.writeData (h : WriteInv ch kContent) (found : σ) :
    WriteInv (ch.writeData S kContent found) kContent := by
  have hcalls := h.calls
  obtain ⟨hbytes, hlen, hchunks⟩ :=
    writeLoop_spec S kContent kWritePackets ch.writeBytes found
  unfold BandwidthWriteChannel.writeData
  dsimp only
  split_ifs
  · refine ⟨?_, ?_, ?_⟩
    · show (writeLoop S kContent kWritePackets ch.writeBytes found).1 = _
      rw [hbytes, h.writeBytes, List.countP_append, UInt32.ofNat_add]
      grind
    · intro w hw
      rcases List.mem_append.1 hw with hw | hw
      · exact h.chunks w hw
      · exact hchunks w hw
    · show (ch.written ++ _).length ≤ kWritePackets * (ch.calls + 1)
      rw [List.length_append, Nat.mul_add]
      omega
  · exact ⟨h.writeBytes, h.chunks, by
      show ch.written.length ≤ kWritePackets * (ch.calls + 1)
      rw [Nat.mul_add]
      omega⟩

/-- A step moves the channel to another stage, or it calls `WriteData` once. -/
theorem bandwidthStep_channel (hs : bandwidthStep S kContent c op = .ok c') :
    (op.asks = false ∧ ∃ stage, c'.channel = { c.channel with stage := stage }) ∨
      ∃ found stage fills, c'.channel =
          { c.channel.writeData S kContent found with stage := stage, fills := fills } ∧
        fills.length + (if op.asks then 1 else 0) = c.channel.fills.length + 1 := by
  cases op with
  | engine op =>
    rw [bandwidthStep] at hs
    split_ifs at hs
    obtain ⟨e, _, heq⟩ := bind_ok_iff.1 hs
    refine Or.inl ⟨rfl, ?_⟩
    split_ifs at heq
    · exact ⟨.called, by rw [← Except.ok.inj heq]⟩
    · exact ⟨c.channel.stage, by rw [← Except.ok.inj heq]⟩
  | startFillData found =>
    rw [bandwidthStep] at hs
    split_ifs at hs
    refine Or.inr ⟨found, .starting, c.channel.fills ++ [c.engine.nowUs], ?_, ?_⟩
    · rw [← Except.ok.inj hs]
      rfl
    · exact List.length_append
  | setAlarm =>
    rw [bandwidthStep] at hs
    split_ifs at hs
    obtain ⟨e, _, heq⟩ := bind_ok_iff.1 hs
    exact Or.inl ⟨rfl, .waiting, by rw [← Except.ok.inj heq]⟩
  | onTimeout found =>
    rw [bandwidthStep] at hs
    split_ifs at hs
    refine Or.inr ⟨found, .refilled, c.channel.fills ++ [c.engine.nowUs], ?_, ?_⟩
    · rw [← Except.ok.inj hs]
      rfl
    · exact List.length_append
  | updateAlarm =>
    rw [bandwidthStep] at hs
    split_ifs at hs
    obtain ⟨e, _, heq⟩ := bind_ok_iff.1 hs
    exact Or.inl ⟨rfl, .waiting, by rw [← Except.ok.inj heq]⟩
  | onCanWrite found =>
    rw [bandwidthStep] at hs
    split_ifs at hs
    obtain ⟨_, hstage, hfills⟩ :=
      writeData_keeps S kContent c.channel found
    refine Or.inr ⟨found, c.channel.stage, c.channel.fills, ?_, rfl⟩
    rw [← Except.ok.inj hs, ← hstage, ← hfills]
  | onDestroy =>
    rw [bandwidthStep] at hs
    split_ifs at hs
    obtain ⟨e₁, _, hs⟩ := bind_ok_iff.1 hs
    obtain ⟨e₂, _, hs⟩ := bind_ok_iff.1 hs
    obtain ⟨e, _, heq⟩ := bind_ok_iff.1 hs
    exact Or.inl ⟨rfl, .destroyed, by rw [← Except.ok.inj heq]⟩

theorem WriteInv.step (h : WriteInv c.channel kContent)
    (hs : bandwidthStep S kContent c op = .ok c') : WriteInv c'.channel kContent := by
  rcases bandwidthStep_channel hs with ⟨_, stage, heq⟩ | ⟨found, stage, fills, heq, _⟩
  · rw [heq]
    exact ⟨h.writeBytes, h.chunks, h.calls⟩
  · have hwrite := h.writeData (S := S) found
    rw [heq]
    exact ⟨hwrite.writeBytes, hwrite.chunks, hwrite.calls⟩

/-- `WriteData` is called by the two functions that the history notes, and for each
time that the stream asks. -/
theorem calls_run (hrun : ops.foldlM (bandwidthStep S kContent) c = .ok c') :
    c'.channel.calls + c.channel.fills.length =
      c'.channel.fills.length + c.channel.calls + ops.countP BandwidthOp.asks := by
  induction ops generalizing c with
  | nil =>
    obtain rfl := run_nil_ok_iff.1 hrun
    exact Nat.add_comm _ _
  | cons op ops ih =>
    obtain ⟨d, hs, hrest⟩ := run_cons_ok_iff.1 hrun
    have hrest := ih hrest
    rw [List.countP_cons]
    rcases bandwidthStep_channel hs with ⟨hasks, stage, heq⟩ | ⟨found, stage, fills, heq, hlen⟩
    · rw [heq] at hrest
      rw [hasks, if_neg Bool.false_ne_true]
      exact hrest
    · have hcalls : d.channel.calls = c.channel.calls + 1 := by
        rw [heq]
        unfold BandwidthWriteChannel.writeData
        dsimp only
        split_ifs <;> rfl
      have hfills : d.channel.fills = fills := by rw [heq]
      rw [hcalls, hfills] at hrest
      omega

/-- The accepted bytes, by the chunks. -/
theorem WriteInv.acceptedBytes_eq {v : UInt8} (h : WriteInv ch (contentInit v)) :
    acceptedBytes ch.written = List.replicate (1500 * ch.written.countP (·.accepted)) v := by
  have hchunks := h.chunks
  rw [acceptedBytes, List.countP_eq_length_filter]
  generalize hacc : ch.written.filter (·.accepted) = accepted
  have hall : ∀ w ∈ accepted, w.bytes = contentInit v := by
    rw [← hacc]
    exact fun w hw => hchunks w (List.mem_filter.1 hw).1
  clear hacc
  induction accepted with
  | nil => rfl
  | cons w ws ih =>
    rw [List.flatMap_cons, hall w (List.mem_cons_self ..),
      ih fun u hu => hall u (List.mem_cons_of_mem _ hu), contentInit,
      List.replicate_append_replicate, List.length_cons, Nat.mul_succ, Nat.add_comm]

theorem writeInv_run {v : UInt8} {now₀ : Nat} {a : AlarmCB}
    (hrun : ops.foldlM (bandwidthStep S (contentInit v)) (.new now₀ a) = .ok c) :
    WriteInv c.channel (contentInit v) :=
  run_keeps (I := fun c : BandwidthClient => WriteInv c.channel (contentInit v))
    (fun _ _ _ hi hs => hi.step hs) ⟨rfl, by simp [BandwidthClient.new], Nat.le_refl _⟩ hrun

theorem writeBytes_run {v : UInt8} {now₀ : Nat} {a : AlarmCB}
    (hrun : ops.foldlM (bandwidthStep S (contentInit v)) (.new now₀ a) = .ok c) :
    c.channel.writeBytes = UInt32.ofNat (acceptedBytes c.channel.written).length := by
  have h := writeInv_run hrun
  rw [h.acceptedBytes_eq, List.length_replicate, h.writeBytes, UInt32.ofNat_mul]
  rfl

end Bytes

/-! ## Whole runs -/

section Run

variable {σ : Type*} (S : QuicStream σ) (v : UInt8) (now₀ : Nat) (a : AlarmCB)
  {ops : List (BandwidthOp σ)} {c : BandwidthClient}

/-- In a run of the channel among any other alarms, it writes from `StartFillData` on once
every 50 ms, to the microsecond, and no period has passed without.  After `OnDestroy` no
step touches it. -/
theorem fills_every_period
    (hd : Each (bandwidthStep S (contentInit v)) EngineDcheckHolds (.new now₀ a) ops)
    (hrun : ops.foldlM (bandwidthStep S (contentInit v)) (.new now₀ a) = .ok c) :
    Spaced c.channel.fills ∧
      (c.channel.stage = .waiting →
        ∃ t, c.channel.fills.getLast? = some t ∧ c.engine.nowUs ≤ t + kWriteDelta) ∧
      (c.channel.stage = .destroyed → ∀ (op : BandwidthOp σ) c', EngineDcheckHolds c op →
        bandwidthStep S (contentInit v) c op = .ok c' → c'.channel = c.channel) := by
  obtain ⟨deadlines, h⟩ := bandwidthInv_run (bandwidthInv_new now₀ a) hd hrun
  exact ⟨h.spaced, h.waits, fun hst op c' hdop hs => h.destroyed_stays hst hdop hs⟩

end Run

/-- `StartFillData`, and the first call of `OnTimeout` up to its return. -/
def firstPeriod : List (BandwidthOp SendingStream) :=
  [.startFillData {}, .setAlarm, .engine (.timeout ⟨0, 50000000⟩), .onTimeout {}, .updateAlarm,
    .engine .delegateReturned]

theorem firstPeriod_dcheck : Each (bandwidthStep sendingStream (contentInit 97)) EngineDcheckHolds
    (.new 0 1) firstPeriod :=
  ⟨trivial, fun _ _ => ⟨trivial, fun _ _ => ⟨trivial, fun _ _ => ⟨trivial, fun _ _ =>
    ⟨trivial, fun _ _ => ⟨trivial, fun _ _ => trivial⟩⟩⟩⟩⟩⟩

theorem fills_every_period_first :
    ∃ c, firstPeriod.foldlM (bandwidthStep sendingStream (contentInit 97)) (.new 0 1) = .ok c ∧
      Spaced c.channel.fills ∧
      (c.channel.stage = .waiting →
        ∃ t, c.channel.fills.getLast? = some t ∧ c.engine.nowUs ≤ t + kWriteDelta) :=
  have h := fills_every_period sendingStream 97 0 1 firstPeriod_dcheck rfl
  ⟨_, rfl, h.1, h.2.1⟩

section Run

variable {σ : Type*} (S : QuicStream σ) (v : UInt8) (now₀ : Nat) (a : AlarmCB)
  {ops : List (BandwidthOp σ)} {c : BandwidthClient}

/-- `write_bytes_` is the number of the bytes that the stream has accepted, modulo 2^32.
They are whole chunks, six at most for each time that the timer fires, or that the
stream asks. -/
theorem write_bytes_counted
    (hrun : ops.foldlM (bandwidthStep S (contentInit v)) (.new now₀ a) = .ok c) :
    c.channel.writeBytes = UInt32.ofNat (acceptedBytes c.channel.written).length ∧
      ∃ chunks, acceptedBytes c.channel.written = List.replicate (1500 * chunks) v ∧
        chunks ≤ 6 * (c.channel.fills.length + ops.countP BandwidthOp.asks) := by
  have h := writeInv_run hrun
  have hcalls := calls_run hrun
  refine ⟨writeBytes_run hrun, _, h.acceptedBytes_eq, ?_⟩
  have hle := (List.countP_le_length (p := (·.accepted)) (l := c.channel.written)).trans h.calls
  simp only [BandwidthClient.new, List.length_nil, kWritePackets] at hcalls hle
  omega

end Run

theorem write_bytes_counted_first :
    ∃ c, firstPeriod.foldlM (bandwidthStep sendingStream (contentInit 97)) (.new 0 1) = .ok c ∧
      c.channel.writeBytes = UInt32.ofNat (acceptedBytes c.channel.written).length :=
  ⟨_, rfl, (@write_bytes_counted _ sendingStream 97 0 1 firstPeriod _ rfl).1⟩

end QuicOnNs3.Client
