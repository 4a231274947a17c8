import Mathlib.Data.List.Nodup
import Mathlib.Logic.Function.Basic
import Mathlib.Order.Lattice

/-!
# Schedulers of deadlines

What a component that runs its clients at their deadlines is for, over any type
of clients and any linearly ordered time.  A client is armed with a deadline, which a later
arming replaces.  Time passes up to the earliest deadline and no further; then the
clients whose deadline has come expire together, and are run one after another
before time passes again.

`ledger` is the deadline of every client by the actions alone.  `Tracks` ties it
to the state, and gives the three rules: a client runs at its deadline
(`Steps.run_on_time`), it runs at most once for each time that it is armed
(`Steps.runs_le_arms`), and time does not pass a deadline that is still to come
(`Tracks.le_deadline`).
-/

namespace QuicOnNs3.Scheduling

variable {ι τ : Type*}

/-- The clock, the deadlines of the clients, and the clients that have expired and
are still to run. -/
@[ext]
structure Scheduler (ι τ : Type*) where
  now : τ
  armed : ι → Option τ
  expired : List ι

/-- What a scheduler does, and what is done to it. -/
inductive SchedulerAction (ι τ : Type*) where
  | pass (t : τ)
  | expire (as : List ι)
  | run (a : ι)
  | arm (a : ι) (d : τ)
  | disarm (a : ι)
  deriving DecidableEq

section Actions

variable [DecidableEq ι] [LinearOrder τ]

/-- One action. -/
inductive Step : Scheduler ι τ → SchedulerAction ι τ → Scheduler ι τ → Prop where
  /-- Time passes when nobody is left to run, and passes no deadline. -/
  | pass {s : Scheduler ι τ} {t : τ} (hidle : s.expired = []) (hle : s.now ≤ t)
      (hdue : ∀ a d, s.armed a = some d → t ≤ d) : Step s (.pass t) { s with now := t }
  /-- All clients whose deadline is the present expire at once. -/
  | expire {s : Scheduler ι τ} {as : List ι} (hidle : s.expired = []) (hnodup : as.Nodup)
      (hdue : ∀ a, a ∈ as ↔ s.armed a = some s.now) :
      Step s (.expire as)
        { s with armed := fun a => if a ∈ as then none else s.armed a, expired := as }
  | run {s : Scheduler ι τ} {a : ι} {as : List ι} (hnext : s.expired = a :: as) :
      Step s (.run a) { s with expired := as }
  | arm {s : Scheduler ι τ} {a : ι} {d : τ} (hout : a ∉ s.expired) (hle : s.now ≤ d) :
      Step s (.arm a d) { s with armed := Function.update s.armed a (some d) }
  | disarm {s : Scheduler ι τ} {a : ι} (hout : a ∉ s.expired) :
      Step s (.disarm a) { s with armed := Function.update s.armed a none }

/-- A sequence of actions. -/
inductive Steps : Scheduler ι τ → List (SchedulerAction ι τ) → Scheduler ι τ → Prop where
  | nil (s : Scheduler ι τ) : Steps s [] s
  | cons {s t u : Scheduler ι τ} {x : SchedulerAction ι τ} {xs : List (SchedulerAction ι τ)}
      (hstep : Step s x t) (hrest : Steps t xs u) : Steps s (x :: xs) u

theorem Steps.append {s t u : Scheduler ι τ} {xs ys : List (SchedulerAction ι τ)} (h : Steps s xs t)
    (h' : Steps t ys u) : Steps s (xs ++ ys) u := by
  induction h with
  | nil => exact h'
  | cons hstep _ ih => exact .cons hstep (ih h')

theorem Steps.split {s u : Scheduler ι τ} {xs ys : List (SchedulerAction ι τ)}
    (h : Steps s (xs ++ ys) u) : ∃ t, Steps s xs t ∧ Steps t ys u := by
  induction xs generalizing s with
  | nil => exact ⟨s, .nil s, h⟩
  | cons x xs ih =>
    cases h with
    | cons hstep hrest =>
      obtain ⟨t, hxs, hys⟩ := ih hrest
      exact ⟨t, .cons hstep hxs, hys⟩

theorem Step.single {s t : Scheduler ι τ} {x : SchedulerAction ι τ} (h : Step s x t) :
    Steps s [x] t :=
  .cons h (.nil t)

end Actions

/-! ## The deadlines by the actions -/

/-- The deadlines after one more action. -/
def ledger [DecidableEq ι] (deadlines : ι → Option τ) : SchedulerAction ι τ → ι → Option τ
  | .arm a d => Function.update deadlines a (some d)
  | .disarm a | .run a => Function.update deadlines a none
  | .pass _ | .expire _ => deadlines

/-- The client that an action is about. -/
def SchedulerAction.client : SchedulerAction ι τ → Option ι
  | .run a | .arm a _ | .disarm a => some a
  | .pass _ | .expire _ => none

/-- The client that an action runs. -/
def SchedulerAction.runs : SchedulerAction ι τ → Option ι
  | .run a => some a
  | _ => none

/-- The client that an action arms. -/
def SchedulerAction.arms : SchedulerAction ι τ → Option ι
  | .arm a _ => some a
  | _ => none

theorem SchedulerAction.client_of_runs {x : SchedulerAction ι τ} {a : ι} (h : x.runs = some a) :
    x.client = some a := by
  cases x with
  | run b => exact h
  | _ => simp [SchedulerAction.runs] at h

theorem SchedulerAction.client_of_arms {x : SchedulerAction ι τ} {a : ι} (h : x.arms = some a) :
    x.client = some a := by
  cases x with
  | arm b d => exact h
  | _ => simp [SchedulerAction.arms] at h

/-- An action leaves the deadlines of the other clients alone. -/
theorem ledger_of_ne [DecidableEq ι] {x : SchedulerAction ι τ} {a : ι} {deadlines : ι → Option τ}
    (h : x.client ≠ some a) : ledger deadlines x a = deadlines a := by
  cases x with
  | pass t => rfl
  | expire as => rfl
  | run b => exact Function.update_of_ne (fun hab => h (congrArg some hab.symm)) ..
  | arm b d => exact Function.update_of_ne (fun hab => h (congrArg some hab.symm)) ..
  | disarm b => exact Function.update_of_ne (fun hab => h (congrArg some hab.symm)) ..

theorem foldl_ledger_of_ne [DecidableEq ι] {xs : List (SchedulerAction ι τ)} {a : ι}
    {deadlines : ι → Option τ} (h : ∀ x ∈ xs, x.client ≠ some a) :
    xs.foldl ledger deadlines a = deadlines a := by
  induction xs generalizing deadlines with
  | nil => rfl
  | cons x xs ih =>
    rw [List.foldl_cons, ih fun y hy => h y (List.mem_cons_of_mem _ hy)]
    exact ledger_of_ne (h x (List.mem_cons_self ..))

variable [LinearOrder τ]

/-- The deadlines are those of the state: a client that has expired has its deadline
now, and any other one is armed with it, for a time that has not passed. -/
structure Tracks (s : Scheduler ι τ) (deadlines : ι → Option τ) : Prop where
  nodup : s.expired.Nodup
  expired : ∀ a ∈ s.expired, deadlines a = some s.now
  armed : ∀ a, a ∉ s.expired → deadlines a = s.armed a
  out : ∀ a ∈ s.expired, s.armed a = none
  ahead : ∀ a d, s.armed a = some d → s.now ≤ d

section Rules

variable [DecidableEq ι] {s t : Scheduler ι τ} {x : SchedulerAction ι τ}
  {xs : List (SchedulerAction ι τ)} {deadlines : ι → Option τ} {a : ι} {d : τ}

/-- Setting the deadline of a client that has not expired. -/
theorem Tracks.update (h : Tracks s deadlines) (hout : a ∉ s.expired) {o : Option τ}
    (hle : ∀ d, o = some d → s.now ≤ d) :
    Tracks { s with armed := Function.update s.armed a o } (Function.update deadlines a o) where
  nodup := h.nodup
  expired := by
    intro b hb
    have hne : b ≠ a := fun heq => hout (heq ▸ hb)
    rw [Function.update_of_ne hne]
    exact h.expired b hb
  armed := by
    intro b hb
    simp only [Function.update_apply]
    split
    · rfl
    · exact h.armed b hb
  out := by
    intro b hb
    have hne : b ≠ a := fun heq => hout (heq ▸ hb)
    exact (Function.update_of_ne hne ..).trans (h.out b hb)
  ahead := by
    intro b d hd
    simp only [Function.update_apply] at hd
    split at hd
    · exact hle d hd
    · exact h.ahead b d hd

/-- Every action keeps the state and the deadlines together. -/
theorem Tracks.step (h : Tracks s deadlines) (hstep : Step s x t) :
    Tracks t (ledger deadlines x) := by
  cases hstep with
  | pass hidle hle hdue =>
    refine ⟨h.nodup, ?_, h.armed, h.out, hdue⟩
    intro b hb
    simp [hidle] at hb
  | expire hidle hnodup hdue =>
    have hidle : ∀ b, b ∉ s.expired := by simp [hidle]
    refine ⟨hnodup, ?_, ?_, ?_, ?_⟩
    · exact fun b hb => (h.armed b (hidle b)).trans ((hdue b).1 hb)
    · exact fun b hb => (h.armed b (hidle b)).trans (if_neg hb).symm
    · exact fun b hb => if_pos hb
    · intro b d hd
      change (if b ∈ _ then none else s.armed b) = some d at hd
      split at hd
      · simp at hd
      · exact h.ahead b d hd
  | @run b as hnext =>
    have hnodup := h.nodup
    rw [hnext, List.nodup_cons] at hnodup
    have hmem : ∀ c ∈ as, c ∈ s.expired := fun c hc => hnext ▸ List.mem_cons_of_mem _ hc
    refine ⟨hnodup.2, ?_, ?_, fun c hc => h.out c (hmem c hc), h.ahead⟩
    · intro c hc
      have hne : c ≠ b := fun heq => hnodup.1 (heq ▸ hc)
      exact (Function.update_of_ne hne ..).trans (h.expired c (hmem c hc))
    · intro c hc
      show Function.update deadlines b none c = s.armed c
      by_cases hcb : c = b
      · rw [hcb, Function.update_self]
        exact (h.out b (hnext ▸ List.mem_cons_self ..)).symm
      · rw [Function.update_of_ne hcb]
        refine h.armed c fun hmem => ?_
        rw [hnext] at hmem
        exact hc ((List.mem_cons.1 hmem).resolve_left hcb)
  | arm hout hle => exact h.update hout fun d' hd' => Option.some.inj hd' ▸ hle
  | disarm hout => exact h.update hout fun d' hd' => by simp at hd'

theorem Tracks.steps (h : Tracks s deadlines) (hsteps : Steps s xs t) :
    Tracks t (xs.foldl ledger deadlines) := by
  induction hsteps generalizing deadlines with
  | nil => exact h
  | cons hstep _ ih => exact ih (h.step hstep)

/-! ## The rules -/

theorem Step.run_on_time (h : Tracks s deadlines) (hstep : Step s (.run a) t) :
    deadlines a = some s.now := by
  cases hstep with
  | run hnext => exact h.expired a (hnext ▸ List.mem_cons_self ..)

/-- A client that runs last does so at its deadline. -/
theorem Steps.run_on_time (h : Tracks s deadlines) (hsteps : Steps s (xs ++ [.run a]) t) :
    xs.foldl ledger deadlines a = some t.now := by
  obtain ⟨u, hsteps, hlast⟩ := hsteps.split
  have hu := h.steps hsteps
  cases hlast with
  | cons hrun hnil =>
    have hdue := hrun.run_on_time hu
    cases hrun with
    | run => cases hnil with | nil => exact hdue

/-- A client runs at most once for each time that it is armed. -/
theorem Steps.runs_le_arms (h : Tracks s deadlines) (hsteps : Steps s xs t)
    (hnone : deadlines a = none) :
    xs.countP (fun x => x.runs = some a) ≤ xs.countP fun x => x.arms = some a := by
  -- a client that is armed has one run to its credit
  suffices hcount : xs.countP (fun x => x.runs = some a) ≤
      xs.countP (fun x => x.arms = some a) + if (deadlines a).isSome then 1 else 0 by
    simpa [hnone] using hcount
  clear hnone
  induction hsteps generalizing deadlines with
  | nil => exact Nat.zero_le _
  | @cons s t u x xs hstep _ ih =>
    have ih := ih (h.step hstep)
    rw [List.countP_cons, List.countP_cons]
    by_cases hx : x.client = some a
    · cases x with
      | pass t => simp [SchedulerAction.client] at hx
      | expire as => simp [SchedulerAction.client] at hx
      | run b =>
        obtain rfl := Option.some.inj hx
        have hdue := hstep.run_on_time h
        simpa [ledger, SchedulerAction.runs, SchedulerAction.arms, hdue] using ih
      | arm b d =>
        obtain rfl := Option.some.inj hx
        simp only [ledger, Function.update_self, SchedulerAction.runs, SchedulerAction.arms] at ih ⊢
        simp at ih ⊢
        omega
      | disarm b =>
        obtain rfl := Option.some.inj hx
        simp only [ledger, Function.update_self, SchedulerAction.runs, SchedulerAction.arms] at ih ⊢
        simp at ih ⊢
        omega
    · rw [ledger_of_ne hx] at ih
      have hruns : x.runs ≠ some a := fun heq => hx (SchedulerAction.client_of_runs heq)
      have harms : x.arms ≠ some a := fun heq => hx (SchedulerAction.client_of_arms heq)
      simpa [hruns, harms] using ih

/-- A deadline that is still to come has not passed. -/
theorem Tracks.le_deadline (h : Tracks s deadlines) (hd : deadlines a = some d) : s.now ≤ d := by
  by_cases hmem : a ∈ s.expired
  · exact le_of_eq (Option.some.inj ((h.expired a hmem).symm.trans hd))
  · exact h.ahead a d ((h.armed a hmem).symm.trans hd)

end Rules

end QuicOnNs3.Scheduling
