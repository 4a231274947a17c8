import Mathlib.Data.Int.Order.Basic
import Mathlib.Data.List.MinMax

/-!
# Windowed minimum filters

A windowed filter is fed samples with their times and answers a minimum of the
recent ones.  `MinFilter` is its interface, and `Lawful` is what a user
may rely on: the answer is one of the samples of the window, it is at most the
sample just fed, and after a gap longer than the window it is that sample.  A
filter may keep a few estimates in place of all samples, so the laws do not make
the answer the minimum of the window.

`ExactMin` makes it that, and `FromSamples` only says that the answer is a sample.

`slidingMin` keeps every sample of the window, and it is exact (`slidingMin_exact`).
-/

namespace QuicOnNs3.WindowedFilter

/-- A filter with states `φ`, values in `Int` and times in `Nat`. -/
structure MinFilter (φ : Type) where
  new (windowLength : Nat) : φ
  setWindowLength (filter : φ) (windowLength : Nat) : φ
  update (filter : φ) (sample : Int) (time : Nat) : φ
  getBest (filter : φ) : Int

variable {φ : Type}

/-- The filter after a sequence of samples, the oldest first. -/
def feed (F : MinFilter φ) (filter : φ) (samples : List (Int × Nat)) : φ :=
  samples.foldl (fun f e => F.update f e.1 e.2) filter

/-- The laws of a minimum filter with the window length `w`. -/
structure Lawful (F : MinFilter φ) (w : Nat) : Prop where
  recent : ∀ (H : List (Int × Nat)) (x : Int) (t : Nat),
    (H ++ [(x, t)]).Pairwise (fun e e' => e.2 ≤ e'.2) →
    ∃ e ∈ H ++ [(x, t)], t ≤ e.2 + w ∧ F.getBest (feed F (F.new w) (H ++ [(x, t)])) = e.1
  le_last : ∀ (H : List (Int × Nat)) (x : Int) (t : Nat),
    (H ++ [(x, t)]).Pairwise (fun e e' => e.2 ≤ e'.2) →
    F.getBest (feed F (F.new w) (H ++ [(x, t)])) ≤ x
  gap : ∀ (H : List (Int × Nat)) (x : Int) (t : Nat),
    (H ++ [(x, t)]).Pairwise (fun e e' => e.2 ≤ e'.2) → (∀ e ∈ H, e.2 + w < t) →
    F.getBest (feed F (F.new w) (H ++ [(x, t)])) = x

/-- A lawful filter whose answer is the minimum of the window. -/
structure ExactMin (F : MinFilter φ) (w : Nat) : Prop extends Lawful F w where
  le_window : ∀ (H : List (Int × Nat)) (x : Int) (t : Nat),
    (H ++ [(x, t)]).Pairwise (fun e e' => e.2 ≤ e'.2) →
    ∀ e ∈ H ++ [(x, t)], t ≤ e.2 + w → F.getBest (feed F (F.new w) (H ++ [(x, t)])) ≤ e.1

/-- A filter with the window length `w` that answers with one of the samples it was
fed, in whatever order their times are. -/
def FromSamples (F : MinFilter φ) (w : Nat) : Prop :=
  ∀ H : List (Int × Nat), H ≠ [] → ∃ e ∈ H, F.getBest (feed F (F.new w) H) = e.1

/-! ## The exact filter -/

/-- All samples of the window, the newest first. -/
structure SlidingMin where
  windowLength : Nat
  samples : List (Int × Nat) := []
  deriving DecidableEq, Repr

/-- The filter that keeps all samples of the window. -/
def slidingMin : MinFilter SlidingMin where
  new w := { windowLength := w }
  setWindowLength f w := { f with windowLength := w }
  update f x t :=
    { f with samples := (x, t) :: f.samples.filter fun e => t ≤ e.2 + f.windowLength }
  getBest f := (f.samples.map Prod.fst).min?.getD 0

theorem feed_append (F : MinFilter φ) (f : φ) (H : List (Int × Nat)) (x : Int) (t : Nat) :
    feed F f (H ++ [(x, t)]) = F.update (feed F f H) x t := by
  simp [feed]

theorem slidingMin_window (f : SlidingMin) (H : List (Int × Nat)) :
    (feed slidingMin f H).windowLength = f.windowLength := by
  induction H generalizing f with
  | nil => rfl
  | cons e H ih => exact ih _

/-- The samples it keeps are samples it was fed. -/
theorem slidingMin_samples {f : SlidingMin} {H : List (Int × Nat)} {e : Int × Nat}
    (h : e ∈ (feed slidingMin f H).samples) : e ∈ f.samples ∨ e ∈ H := by
  induction H generalizing f with
  | nil => exact Or.inl h
  | cons e' H ih =>
    rcases ih h with h | h
    · rcases List.mem_cons.1 h with rfl | h
      · exact Or.inr (by simp)
      · exact Or.inl (List.mem_filter.1 h).1
    · exact Or.inr (List.mem_cons_of_mem _ h)

/-- The answer is the least kept sample. -/
theorem slidingMin_getBest {f : SlidingMin} (hne : f.samples ≠ []) :
    (∃ e ∈ f.samples, slidingMin.getBest f = e.1) ∧
      ∀ e ∈ f.samples, slidingMin.getBest f ≤ e.1 := by
  obtain ⟨m, hm⟩ : ∃ m, (f.samples.map Prod.fst).min? = some m := by
    cases h : (f.samples.map Prod.fst).min? with
    | none => simp [List.min?_eq_none_iff, hne] at h
    | some m => exact ⟨m, rfl⟩
  have hbest : slidingMin.getBest f = m := by simp [slidingMin, hm]
  obtain ⟨hmem, hle⟩ := List.min?_eq_some_iff.1 hm
  rw [hbest]
  refine ⟨?_, fun e he => hle e.1 (List.mem_map_of_mem he)⟩
  obtain ⟨e, he, rfl⟩ := List.mem_map.1 hmem
  exact ⟨e, he, rfl⟩

theorem slidingMin_update_samples (f : SlidingMin) (x : Int) (t : Nat) :
    (slidingMin.update f x t).samples =
      (x, t) :: f.samples.filter fun e => t ≤ e.2 + f.windowLength := rfl

theorem slidingMin_lawful (w : Nat) : Lawful slidingMin w := by
  have hnew : (slidingMin.new w).samples = [] := rfl
  have hsamples : ∀ (H : List (Int × Nat)) (x : Int) (t : Nat),
      (feed slidingMin (slidingMin.new w) (H ++ [(x, t)])).samples =
        (x, t) :: (feed slidingMin (slidingMin.new w) H).samples.filter
          fun e => t ≤ e.2 + w := by
    intro H x t
    rw [feed_append, slidingMin_update_samples, slidingMin_window]
    rfl
  have hne : ∀ (H : List (Int × Nat)) (x : Int) (t : Nat),
      (feed slidingMin (slidingMin.new w) (H ++ [(x, t)])).samples ≠ [] := by
    intro H x t
    simp [hsamples H x t]
  refine ⟨fun H x t _ => ?_, fun H x t _ => ?_, fun H x t _ hgap => ?_⟩
  · obtain ⟨e, he, hbest⟩ := (slidingMin_getBest (hne H x t)).1
    have hin := slidingMin_samples he
    rw [hnew] at hin
    refine ⟨e, hin.resolve_left (by simp), ?_, hbest⟩
    rw [hsamples] at he
    rcases List.mem_cons.1 he with rfl | he
    · exact Nat.le_add_right _ _
    · simpa using (List.mem_filter.1 he).2
  · exact (slidingMin_getBest (hne H x t)).2 (x, t) (by simp [hsamples H x t])
  · have hold : (feed slidingMin (slidingMin.new w) H).samples.filter
        (fun e => t ≤ e.2 + w) = [] := by
      refine List.filter_eq_nil_iff.2 fun e he => ?_
      have hin := slidingMin_samples he
      rw [hnew] at hin
      simpa using hgap e (hin.resolve_left (by simp))
    obtain ⟨e, he, hbest⟩ := (slidingMin_getBest (hne H x t)).1
    rw [hsamples, hold, List.mem_singleton] at he
    rw [hbest, he]

theorem slidingMin_fromSamples (w : Nat) : FromSamples slidingMin w := by
  intro H hne
  have hlast := List.dropLast_append_getLast hne
  generalize H.dropLast = H' at hlast
  generalize H.getLast hne = e at hlast
  have hkept : (feed slidingMin (slidingMin.new w) H).samples ≠ [] := by
    rw [← hlast, feed_append, slidingMin_update_samples]
    exact List.cons_ne_nil _ _
  have ⟨e', he', hbest⟩ := (slidingMin_getBest hkept).1
  have hin := slidingMin_samples he'
  exact ⟨e', hin.resolve_left (by simp [slidingMin]), hbest⟩

/-- A sample stays as long as it is in the window. -/
theorem slidingMin_keeps {f : SlidingMin} {H : List (Int × Nat)} {e : Int × Nat} {t : Nat}
    (htimes : ∀ e' ∈ H, e'.2 ≤ t) (hwindow : t ≤ e.2 + f.windowLength)
    (h : e ∈ f.samples ∨ e ∈ H) : e ∈ (feed slidingMin f H).samples := by
  induction H generalizing f with
  | nil => exact h.resolve_right (by simp)
  | cons e' H ih =>
    have he' := htimes e' (List.mem_cons_self ..)
    apply ih (f := slidingMin.update f e'.1 e'.2)
    · exact fun e'' he'' => htimes e'' (List.mem_cons_of_mem _ he'')
    · exact hwindow
    · rw [slidingMin_update_samples]
      rcases h with h | h
      · refine Or.inl (List.mem_cons_of_mem _ (List.mem_filter.2 ⟨h, ?_⟩))
        simpa using Nat.le_trans he' hwindow
      · rcases List.mem_cons.1 h with rfl | h
        · exact Or.inl (List.mem_cons_self ..)
        · exact Or.inr h

theorem slidingMin_exact (w : Nat) : ExactMin slidingMin w := by
  refine ⟨slidingMin_lawful w, fun H x t hsorted e he hwindow => ?_⟩
  have htimes : ∀ e' ∈ H ++ [(x, t)], e'.2 ≤ t := by
    intro e' he'
    rcases List.mem_append.1 he' with he' | he'
    · exact (List.pairwise_append.1 hsorted).2.2 e' he' (x, t) (by simp)
    · rw [List.mem_singleton.1 he']
  have hkept := slidingMin_keeps (f := slidingMin.new w) htimes hwindow (Or.inr he)
  exact (slidingMin_getBest (List.ne_nil_of_mem hkept)).2 e hkept

end QuicOnNs3.WindowedFilter
