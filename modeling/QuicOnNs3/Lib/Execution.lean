import Mathlib.Logic.Basic
import Mathlib.Tactic.TypeStar

/-!
# Runs of a partial step function

A system is a step function `step : σ → α → Except ε σ`: an action either
moves the system to its next state or stops it with a fault.  This file
fixes what it means for something to hold over a whole run.

* `Reach step C s₀` is the set of states that successful steps reach from
  `s₀`, where every step meets the condition `C` on the state before it.
* `Each step Q s as` says that `Q` holds of every step the run `as` from `s`
  attempts, the one that stops it included.
* `Along step P s as` says that `P` holds of every state the run passes
  through.

`Reach.invariant` and `each_iff` are the two induction rules: the first
carries an invariant to every reachable state, the second turns an
equivalence of two conditions on one step into an equivalence on runs.
-/

namespace QuicOnNs3.Execution

universe u

variable {σ α ε : Type*}

/-! ## Computations that may stop -/

section Bind

variable {β γ : Type u} {x : Except ε β} {k : β → Except ε γ} {c : γ} {f : ε}

theorem bind_ok_iff : x >>= k = .ok c ↔ ∃ b, x = .ok b ∧ k b = .ok c := by
  cases x <;> simp [bind, Except.bind]

theorem bind_error_iff : x >>= k = .error f ↔ x = .error f ∨ ∃ b, x = .ok b ∧ k b = .error f := by
  cases x <;> simp [bind, Except.bind]

end Bind

section Run

variable {step : σ → α → Except ε σ} {s t : σ} {a : α} {as : List α} {f : ε}

theorem run_nil_ok_iff : [].foldlM step s = .ok t ↔ s = t := by
  simp [pure, Except.pure]

theorem run_cons_ok_iff :
    (a :: as).foldlM step s = .ok t ↔ ∃ u, step s a = .ok u ∧ as.foldlM step u = .ok t := by
  rw [List.foldlM_cons, bind_ok_iff]

theorem run_cons_error_iff :
    (a :: as).foldlM step s = .error f ↔
      step s a = .error f ∨ ∃ u, step s a = .ok u ∧ as.foldlM step u = .error f := by
  rw [List.foldlM_cons, bind_error_iff]

end Run

/-! ## Reachable states -/

/-- The states reached from `s₀` by successful steps, each of which meets
`C` in the state before it. -/
inductive Reach (step : σ → α → Except ε σ) (C : σ → α → Prop) (s₀ : σ) : σ → Prop where
  | refl : Reach step C s₀ s₀
  | tail {s t : σ} {a : α} (hs : Reach step C s₀ s) (hc : C s a) (ht : step s a = .ok t) :
      Reach step C s₀ t

/-- The states reached by successful steps, with no condition on them. -/
abbrev Reachable (step : σ → α → Except ε σ) (s₀ : σ) : σ → Prop :=
  Reach step (fun _ _ => True) s₀

variable {step : σ → α → Except ε σ} {C Q R : σ → α → Prop} {I P : σ → Prop}

/-- What holds initially and is kept by every step that meets `C` holds of
every state such steps reach. -/
theorem Reach.invariant {s₀ s : σ} (h : Reach step C s₀ s) (hinit : I s₀)
    (hstep : ∀ s a t, I s → C s a → step s a = .ok t → I t) : I s := by
  induction h with
  | refl => exact hinit
  | tail _ hc ht ih => exact hstep _ _ _ ih hc ht

/-! ## Properties of every step and of every state of a run -/

/-- `Q` holds of every step that the run attempts. -/
def Each (step : σ → α → Except ε σ) (Q : σ → α → Prop) : σ → List α → Prop
  | _, [] => True
  | s, a :: as => Q s a ∧ ∀ t, step s a = .ok t → Each step Q t as

instance decidableEach [∀ s a, Decidable (Q s a)] : ∀ s as, Decidable (Each step Q s as)
  | _, [] => isTrue trivial
  | s, a :: as =>
    match h : step s a with
    | .error _ => decidable_of_iff (Q s a) (by simp [Each, h])
    | .ok t =>
      haveI := decidableEach t as
      decidable_of_iff (Q s a ∧ Each step Q t as) (by simp [Each, h])

/-- `P` holds of every state that the run passes through. -/
def Along (step : σ → α → Except ε σ) (P : σ → Prop) : σ → List α → Prop
  | s, [] => P s
  | s, a :: as => P s ∧ ∀ t, step s a = .ok t → Along step P t as

theorem along_iff (s : σ) (as : List α) :
    Along step P s as ↔ P s ∧ Each step (fun s a => ∀ t, step s a = .ok t → P t) s as := by
  induction as generalizing s with
  | nil => simp [Along, Each]
  | cons a as ih =>
    simp only [Along, Each]
    constructor
    · rintro ⟨hs, hrest⟩
      exact ⟨hs, fun t ht => ((ih t).1 (hrest t ht)).1, fun t ht => ((ih t).1 (hrest t ht)).2⟩
    · rintro ⟨hs, hnext, hrest⟩
      exact ⟨hs, fun t ht => (ih t).2 ⟨hnext t ht, hrest t ht⟩⟩

theorem each_and (s : σ) (as : List α) :
    Each step Q s as ∧ Each step R s as ↔ Each step (fun s a => Q s a ∧ R s a) s as := by
  induction as generalizing s with
  | nil => simp [Each]
  | cons a as ih =>
    simp only [Each]
    constructor
    · rintro ⟨⟨hq, hqs⟩, hr, hrs⟩
      exact ⟨⟨hq, hr⟩, fun t ht => (ih t).1 ⟨hqs t ht, hrs t ht⟩⟩
    · rintro ⟨⟨hq, hr⟩, hrest⟩
      exact ⟨⟨hq, fun t ht => ((ih t).2 (hrest t ht)).1⟩,
        hr, fun t ht => ((ih t).2 (hrest t ht)).2⟩

/-- Two conditions that agree on every step from a state of the invariant
`I` agree on every run, when the steps that meet the second one keep `I`. -/
theorem each_iff (hiff : ∀ s a, I s → (Q s a ↔ C s a))
    (hkeep : ∀ s a t, I s → C s a → step s a = .ok t → I t)
    {s : σ} (hs : I s) (as : List α) : Each step Q s as ↔ Each step C s as := by
  induction as generalizing s with
  | nil => simp [Each]
  | cons a as ih =>
    simp only [Each]
    constructor
    · rintro ⟨hq, hrest⟩
      have hc := (hiff s a hs).1 hq
      exact ⟨hc, fun t ht => (ih (hkeep s a t hs hc ht)).1 (hrest t ht)⟩
    · rintro ⟨hc, hrest⟩
      exact ⟨(hiff s a hs).2 hc, fun t ht => (ih (hkeep s a t hs hc ht)).2 (hrest t ht)⟩

/-- `each_iff` for runs whose steps are known to meet `R`. -/
theorem each_iff_given (hiff : ∀ s a, I s → R s a → (Q s a ↔ C s a))
    (hkeep : ∀ s a t, I s → R s a → C s a → step s a = .ok t → I t)
    {s : σ} (hs : I s) {as : List α} (hr : Each step R s as) :
    Each step Q s as ↔ Each step C s as := by
  have hboth := each_iff (Q := fun s a => R s a ∧ Q s a) (C := fun s a => R s a ∧ C s a)
    (fun s a hi => and_congr_right (hiff s a hi))
    (fun s a t hi hc => hkeep s a t hi hc.1 hc.2) hs as
  rwa [← each_and, ← each_and, and_iff_right hr, and_iff_right hr] at hboth

/-- A run whose steps meet `C` meets every condition that `C` and the
invariant give on one step. -/
theorem each_of_each (himp : ∀ s a, I s → C s a → Q s a)
    (hkeep : ∀ s a t, I s → C s a → step s a = .ok t → I t)
    {s : σ} (hs : I s) {as : List α} (hc : Each step C s as) : Each step Q s as := by
  induction as generalizing s with
  | nil => trivial
  | cons a as ih =>
    obtain ⟨hca, hrest⟩ := hc
    exact ⟨himp s a hs hca, fun t ht => ih (hkeep s a t hs hca ht) (hrest t ht)⟩

theorem Each.imp (hqr : ∀ s a, Q s a → R s a) {s : σ} {as : List α} (h : Each step Q s as) :
    Each step R s as := by
  induction as generalizing s with
  | nil => trivial
  | cons a as ih => exact ⟨hqr s a h.1, fun t ht => ih (h.2 t ht)⟩

/-- What an invariant of all steps gives on one step, it gives on every step. -/
theorem each_of_invariant (himp : ∀ s a, I s → Q s a)
    (hkeep : ∀ s a t, I s → step s a = .ok t → I t) {s : σ} (hs : I s) (as : List α) :
    Each step Q s as := by
  induction as generalizing s with
  | nil => trivial
  | cons a as ih => exact ⟨himp s a hs, fun t ht => ih (hkeep s a t hs ht)⟩

/-- A condition on the steps of a machine is one on the steps of a machine that
carries more data. -/
theorem each_proj {τ : Type*} {step' : τ → α → Except ε τ} {f : τ → σ}
    (hstep : ∀ m a, step (f m) a = (step' m a).map f) (m : τ) (as : List α) :
    Each step Q (f m) as ↔ Each step' (fun m a => Q (f m) a) m as := by
  induction as generalizing m with
  | nil => simp [Each]
  | cons a as ih =>
    simp only [Each, hstep m a]
    cases step' m a with
    | error e => simp [Except.map]
    | ok m' => simp [Except.map, ih]

/-- What holds of every action holds of every step. -/
theorem each_of_forall_mem {R : α → Prop} {s : σ} {as : List α} (h : ∀ a ∈ as, R a) :
    Each step (fun _ a => R a) s as := by
  induction as generalizing s with
  | nil => trivial
  | cons a as ih =>
    exact ⟨h a (List.mem_cons_self ..), fun t _ => ih fun b hb => h b (List.mem_cons_of_mem _ hb)⟩

/-- Every step of a run that is carried out succeeds. -/
theorem each_ok_of_foldlM {s t : σ} {as : List α} (hrun : as.foldlM step s = .ok t) :
    Each step (fun s a => ∃ t, step s a = .ok t) s as := by
  induction as generalizing s with
  | nil => trivial
  | cons a as ih =>
    obtain ⟨s', hstep, hrun⟩ := run_cons_ok_iff.1 hrun
    refine ⟨⟨s', hstep⟩, fun u hu => ?_⟩
    obtain rfl : s' = u := by simpa [hstep] using hu
    exact ih hrun

/-- What every step that meets `C` keeps, a run of such steps keeps. -/
theorem Each.run_keeps {s t : σ} {as : List α} (hc : Each step C s as)
    (hkeep : ∀ s a t, I s → C s a → step s a = .ok t → I t)
    (hs : I s) (hrun : as.foldlM step s = .ok t) : I t := by
  induction as generalizing s with
  | nil => exact run_nil_ok_iff.1 hrun ▸ hs
  | cons a as ih =>
    obtain ⟨u, hstep, hrun⟩ := run_cons_ok_iff.1 hrun
    exact ih (hc.2 u hstep) (hkeep s a u hs hc.1 hstep) hrun

/-- A run whose steps meet `C` ends in a state that such steps reach. -/
theorem Each.reach {s₀ s : σ} {as : List α} (hc : Each step C s₀ as)
    (hrun : as.foldlM step s₀ = .ok s) : Reach step C s₀ s :=
  hc.run_keeps (fun _ _ _ hs hca ht => hs.tail hca ht) .refl hrun

/-- What every step keeps, a run that is carried out keeps. -/
theorem run_keeps (hkeep : ∀ s a t, I s → step s a = .ok t → I t) {s t : σ} {as : List α}
    (hs : I s) (hrun : as.foldlM step s = .ok t) : I t :=
  (each_ok_of_foldlM hrun).run_keeps (fun s a t hi _ ht => hkeep s a t hi ht) hs hrun

/-- A run that is stopped is stopped by one of its steps. -/
theorem Each.fault {K : ε → Prop} {s : σ} {as : List α} {f : ε}
    (h : Each step (fun s a => ∀ f, step s a = .error f → K f) s as)
    (hrun : as.foldlM step s = .error f) : K f := by
  induction as generalizing s with
  | nil => simp [pure, Except.pure] at hrun
  | cons a as ih =>
    rcases run_cons_error_iff.1 hrun with hstep | ⟨t, hstep, hrun⟩
    · exact h.1 f hstep
    · exact ih (h.2 t hstep) hrun

/-- A run that is carried out ends in a state that it passes through. -/
theorem Along.last {s t : σ} {as : List α} (h : Along step P s as)
    (hrun : as.foldlM step s = .ok t) : P t := by
  induction as generalizing s with
  | nil => exact run_nil_ok_iff.1 hrun ▸ h
  | cons a as ih =>
    obtain ⟨u, hstep, hrun⟩ := run_cons_ok_iff.1 hrun
    exact ih (h.2 u hstep) hrun

/-- A run in two parts, of which the first is carried out. -/
theorem each_append {s t : σ} {as : List α} (hrun : as.foldlM step s = .ok t) (bs : List α) :
    Each step Q s (as ++ bs) ↔ Each step Q s as ∧ Each step Q t bs := by
  induction as generalizing s with
  | nil =>
    obtain rfl := run_nil_ok_iff.1 hrun
    simp [Each]
  | cons a as ih =>
    obtain ⟨s', hstep, hrun⟩ := run_cons_ok_iff.1 hrun
    simp [Each, hstep, ih hrun, and_assoc]

end QuicOnNs3.Execution
