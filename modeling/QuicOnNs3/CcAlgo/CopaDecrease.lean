import QuicOnNs3.CcAlgo.CopaSender

/-!
# The decrease path of the Copa sender

The decrease path takes at most `congestion_window_ - min_congestion_window_` off
the window, and that difference is unsigned.  It is a floor only for a window that
is at least the minimum, and the constructor and
`SetInitialCongestionWindowInPackets` accept any window.

`onCongestionEvent_safe_iff` is the condition for one event, and
`decreases_safely_iff` the one for a run, both for every rounding.  No other path moves the window below
the minimum (`copaStep_aboveMinimum`), so initial windows of 4 packets are enough.
-/

namespace QuicOnNs3.CcAlgo.Copa

open QuicOnNs3.WindowedFilter QuicOnNs3.Execution QuicOnNs3.FloatingPoint

/-! ## The unsigned difference -/

theorem u64Sub_of_le {a b : Nat} (hle : b ≤ a) (ha : a < 2 ^ 64) : u64Sub a b = a - b := by
  have hsum : a + (2 ^ 64 - b) = a - b + 2 ^ 64 := by omega
  unfold u64Sub u64
  rw [hsum, Nat.add_mod_right]
  exact Nat.mod_eq_of_lt (by omega)

/-- A difference below zero is `2^64` too large. -/
theorem u64Sub_of_lt {a b : Nat} (hlt : a < b) (hb : b < 2 ^ 64) :
    u64Sub a b = 2 ^ 64 + a - b := by
  have hsum : a + (2 ^ 64 - b) = 2 ^ 64 + a - b := by omega
  unfold u64Sub
  rw [hsum]
  exact u64_of_lt (by omega)

theorem subtractAndCheckUnderflow_ok_iff {value toSub w : Nat} :
    subtractAndCheckUnderflow value toSub = .ok w ↔ toSub ≤ value ∧ w = value - toSub := by
  unfold subtractAndCheckUnderflow
  split_ifs with h
  · simp only [false_iff]
    omega
  · simp only [Except.ok.injEq]
    omega

theorem subtractAndCheckUnderflow_error_iff {value toSub : Nat} {f : Fault} :
    subtractAndCheckUnderflow value toSub = .error f ↔ f = .underflow ∧ value < toSub := by
  unfold subtractAndCheckUnderflow
  split_ifs with h
  · simp only [Except.error.injEq, eq_comm, and_iff_left h]
  · simp [h]

namespace CopaSender

variable {φ : Type} {R : Rounding} {F : MinFilter φ} {s t : CopaSender φ}

/-! ## One event -/

/-- The bytes that a reduction of `a` takes off the window. -/
def cut (s : CopaSender φ) (a : Nat) : Nat :=
  min a (u64Sub s.congestionWindow s.minCongestionWindow)

theorem reduce_ok_iff {n : Nat} :
    s.reduce R n = .ok t ↔ ∃ a, s.change R n = .ok a ∧ s.cut a ≤ s.congestionWindow ∧
      t = { s with congestionWindow := s.congestionWindow - s.cut a, isSlowStart := false } := by
  unfold reduce
  rw [bind_ok_iff]
  refine exists_congr fun a => and_congr_right fun _ => ?_
  rw [bind_ok_iff]
  constructor
  · intro h
    have ⟨w, hsub, ht⟩ := h
    obtain ⟨hfits, hw⟩ := subtractAndCheckUnderflow_ok_iff.1 hsub
    exact ⟨hfits, hw ▸ (Except.ok.inj ht).symm⟩
  · intro h
    exact ⟨_, subtractAndCheckUnderflow_ok_iff.2 ⟨h.1, rfl⟩, by rw [h.2]; rfl⟩

theorem reduce_underflow_iff {n : Nat} :
    s.reduce R n = .error .underflow ↔
      ∃ a, s.change R n = .ok a ∧ s.congestionWindow < s.cut a := by
  unfold reduce
  rw [bind_error_iff]
  constructor
  · intro h
    rcases h with hchange | ⟨a, hchange, hsub⟩
    · exact absurd (change_error hchange) (by decide)
    · rcases bind_error_iff.1 hsub with hunder | ⟨w, -, hok⟩
      · exact ⟨a, hchange, (subtractAndCheckUnderflow_error_iff.1 hunder).2⟩
      · simp at hok
  · intro h
    have ⟨a, hchange, hlt⟩ := h
    have hsub := subtractAndCheckUnderflow_error_iff.2 ⟨rfl, hlt⟩
    exact Or.inr ⟨a, hchange, bind_error_iff.2 (Or.inl hsub)⟩

/-- The limits that every run keeps: the minimum of the constructor, and a window
that a `uint64` holds. -/
structure Limits (s : CopaSender φ) : Prop where
  minCongestionWindow : s.minCongestionWindow = kDefaultMinimumCongestionWindow
  window : s.congestionWindow < 2 ^ 64

/-- The event comes to the decrease path of `OnPacketAcked`. -/
def TakesDecrease (R : Rounding) (F : MinFilter φ) (s : CopaSender φ) (ev : CongestionEvent) :
    Prop :=
  s.increases R F ev = .ok false

/-- The difference of the decrease path is the one of the two windows, in an event
that does not throw the underflow and leaves the window at the smaller of its
previous value and the minimum, or above. -/
structure DecreaseSafe (R : Rounding) (F : MinFilter φ) (s : CopaSender φ)
    (ev : CongestionEvent) : Prop where
  noUnderflow : s.onCongestionEvent R F ev ≠ .error .underflow
  noWrap : (u64Sub s.congestionWindow s.minCongestionWindow : Int) =
    s.congestionWindow - s.minCongestionWindow
  floor : ∀ t, s.onCongestionEvent R F ev = .ok t →
    min s.congestionWindow s.minCongestionWindow ≤ t.congestionWindow

theorem reduce_aboveMinimum {n : Nat} (hlt : s.congestionWindow < 2 ^ 64)
    (hle : s.minCongestionWindow ≤ s.congestionWindow) :
    s.reduce R n ≠ .error .underflow ∧
      ∀ t, s.reduce R n = .ok t → s.minCongestionWindow ≤ t.congestionWindow := by
  have hcut : ∀ a, s.cut a ≤ s.congestionWindow - s.minCongestionWindow := by
    intro a
    unfold cut
    rw [u64Sub_of_le hle hlt]
    exact Nat.min_le_right _ _
  constructor
  · intro h
    obtain ⟨a, _, hunder⟩ := reduce_underflow_iff.1 h
    have ha := hcut a
    omega
  · intro t h
    obtain ⟨a, _, _, ht⟩ := reduce_ok_iff.1 h
    have ha := hcut a
    rw [ht]
    show s.minCongestionWindow ≤ s.congestionWindow - s.cut a
    omega

theorem beforeRates_minCongestionWindow (s : CopaSender φ) (ev : CongestionEvent) :
    (s.beforeRates F ev).minCongestionWindow = s.minCongestionWindow := by
  have ⟨_, hlost⟩ := losses_fields s ev.lostPackets
  unfold beforeRates
  rw [hlost]
  rfl

/-- The sender when an event of the decrease path comes to the reduction. -/
def beforeReduce (F : MinFilter φ) (s : CopaSender φ) (ev : CongestionEvent) : CopaSender φ :=
  (s.beforeRates F ev).facing .down ev

theorem beforeReduce_windows (s : CopaSender φ) (ev : CongestionEvent) :
    (s.beforeReduce F ev).congestionWindow = s.congestionWindow ∧
      (s.beforeReduce F ev).minCongestionWindow = s.minCongestionWindow :=
  ⟨(beforeRates_sameWindow F s ev).congestionWindow,
    beforeRates_minCongestionWindow (F := F) s ev⟩

theorem onCongestionEvent_of_takesDecrease {ev : CongestionEvent} (h : s.TakesDecrease R F ev) :
    s.onCongestionEvent R F ev = (s.beforeReduce F ev).reduce R ev.ackedPackets.length := by
  have hfalse : (s.beforeRates F ev).increaseCwnd R F ev.latestRtt = .ok false := h
  unfold onCongestionEvent
  simp only [hfalse]
  rfl

/-- An event of the decrease path is safe exactly with a window that is at least
the minimum. -/
theorem onCongestionEvent_safe_iff {ev : CongestionEvent} (hs : s.Limits)
    (hdec : s.TakesDecrease R F ev) :
    s.DecreaseSafe R F ev ↔ s.minCongestionWindow ≤ s.congestionWindow := by
  constructor
  · intro h
    have hwrap := h.noWrap
    by_contra hlt
    have hmin : s.minCongestionWindow < 2 ^ 64 := by
      rw [hs.minCongestionWindow]
      decide
    rw [u64Sub_of_lt (Nat.not_le.1 hlt) hmin] at hwrap
    omega
  · intro hle
    obtain ⟨hw, hmin⟩ := beforeReduce_windows (F := F) s ev
    have hreduce := reduce_aboveMinimum (R := R) (s := s.beforeReduce F ev)
      (n := ev.ackedPackets.length)
      (by rw [hw]; exact hs.window) (by rw [hw, hmin]; exact hle)
    refine ⟨?_, ?_, fun t ht => ?_⟩
    · rw [onCongestionEvent_of_takesDecrease hdec]
      exact hreduce.1
    · rw [u64Sub_of_le hle hs.window]
      omega
    · rw [onCongestionEvent_of_takesDecrease hdec] at ht
      have hfloor := hreduce.2 t ht
      rw [hmin] at hfloor
      omega

/-! ## The other paths -/

/-- `t` has the window of `s` or a larger one, and the same minimum. -/
structure Grown (s t : CopaSender φ) : Prop where
  minCongestionWindow : t.minCongestionWindow = s.minCongestionWindow
  le : s.congestionWindow ≤ t.congestionWindow
  lt : t.congestionWindow < 2 ^ 64

theorem slowStart_grown {ev : CongestionEvent} (hlt : s.congestionWindow < 2 ^ 64)
    (h : s.slowStart ev = .ok t) : s.Grown t := by
  rcases slowStart_ok_iff.1 h with ⟨-, ht⟩ | ⟨-, hfits, ht⟩
  · rw [ht]
    exact ⟨rfl, Nat.le_refl _, hlt⟩
  · unfold maxUint64 at hfits
    rw [ht]
    refine ⟨rfl, ?_, ?_⟩
    · show s.congestionWindow ≤ s.congestionWindow + s.congestionWindow
      omega
    · show s.congestionWindow + s.congestionWindow < 2 ^ 64
      omega

theorem increase_grown {n : Nat} (h : s.increase R n = .ok t) : s.Grown t := by
  have ⟨a, hchange, hfits, ht⟩ := increase_ok_iff.1 h
  have ha := (change_ok hchange).2
  unfold maxUint64 at hfits
  rw [ht]
  refine ⟨rfl, ?_, ?_⟩
  · show s.congestionWindow ≤ s.congestionWindow + a
    omega
  · show s.congestionWindow + a < 2 ^ 64
    omega

/-- An event keeps the limits, and a window that is at least the minimum. -/
theorem onCongestionEvent_limits {ev : CongestionEvent} (hs : s.Limits)
    (h : s.onCongestionEvent R F ev = .ok t) :
    t.Limits ∧ (s.minCongestionWindow ≤ s.congestionWindow →
      t.minCongestionWindow ≤ t.congestionWindow) := by
  have hs1 := hs.minCongestionWindow
  have hs2 := hs.window
  have hmin := beforeRates_minCongestionWindow (F := F) s ev
  have hw : (s.beforeRates F ev).congestionWindow = s.congestionWindow :=
    (beforeRates_sameWindow F s ev).congestionWindow
  have ⟨b, hb, hmove⟩ := onCongestionEvent_ok_iff.1 h
  cases b with
  | true =>
    have hgrown : (s.beforeRates F ev).Grown t := by
      rw [moveWindow, if_pos rfl] at hmove
      split_ifs at hmove
      · exact slowStart_grown (by rw [hw]; exact hs2) hmove
      · have hgrown := increase_grown hmove
        exact ⟨hgrown.1, hgrown.2, hgrown.3⟩
    have hgmin := hgrown.minCongestionWindow
    have hgle := hgrown.le
    refine ⟨⟨by rw [hgmin, hmin, hs1], hgrown.lt⟩, fun hle => ?_⟩
    omega
  | false =>
    have hreduce : (s.beforeReduce F ev).reduce R ev.ackedPackets.length = .ok t :=
      (onCongestionEvent_of_takesDecrease hb).symm.trans h
    obtain ⟨hw', hmin'⟩ := beforeReduce_windows (F := F) s ev
    refine ⟨?_, fun hle => ?_⟩
    · obtain ⟨_, w, hle, ht⟩ := reduce_ok hreduce
      rw [ht]
      exact ⟨hmin'.trans hs1, by show w < 2 ^ 64; omega⟩
    · have hfloor := (onCongestionEvent_safe_iff hs hb).2 hle
      have hfloor := hfloor.floor t h
      obtain ⟨_, w, _, ht⟩ := reduce_ok hreduce
      have htmin : t.minCongestionWindow = s.minCongestionWindow := by
        rw [ht]
        exact hmin'
      omega

end CopaSender

open CopaSender

variable {φ : Type} {R : Rounding} {F : MinFilter φ}

/-! ## Whole runs -/

/-- Where the call comes to the decrease path, it is safe. -/
def DecreasesSafely (R : Rounding) (F : MinFilter φ) (s : CopaSender φ) (op : CopaOp) : Prop :=
  ∀ ev, op = .onCongestionEvent ev → s.TakesDecrease R F ev → s.DecreaseSafe R F ev

/-- Where the call comes to the decrease path, the window is at least the minimum. -/
def DecreasesAboveMinimum (R : Rounding) (F : MinFilter φ) (s : CopaSender φ) (op : CopaOp) :
    Prop :=
  ∀ ev, op = .onCongestionEvent ev → s.TakesDecrease R F ev →
    s.minCongestionWindow ≤ s.congestionWindow

/-- The call sets no initial window below the minimum. -/
def SetsAtLeastMinimum : CopaOp → Prop
  | .setInitialCongestionWindowInPackets n =>
    kDefaultMinimumCongestionWindow ≤ u64 (n * kDefaultTCPMSS)
  | _ => True

theorem new_limits (F : MinFilter φ) (initial maximum : Nat) : (new F initial maximum).Limits :=
  ⟨rfl, u64_lt _⟩

theorem copaStep_limits {s t : CopaSender φ} {op : CopaOp} (hs : s.Limits)
    (h : copaStep R F s op = .ok t) : t.Limits := by
  cases op with
  | onPacketSent p =>
    rw [← Except.ok.inj h]
    exact ⟨hs.1, hs.2⟩
  | setInitialCongestionWindowInPackets n =>
    rw [← Except.ok.inj h, setInitialCongestionWindowInPackets]
    split
    · exact ⟨hs.1, u64_lt _⟩
    · exact hs
  | onCongestionEvent ev => exact (onCongestionEvent_limits hs h).1

/-- A window that is at least the minimum stays so. -/
theorem copaStep_aboveMinimum {s t : CopaSender φ} {op : CopaOp} (hs : s.Limits)
    (hle : s.minCongestionWindow ≤ s.congestionWindow) (hset : SetsAtLeastMinimum op)
    (h : copaStep R F s op = .ok t) : t.minCongestionWindow ≤ t.congestionWindow := by
  cases op with
  | onPacketSent p =>
    rw [← Except.ok.inj h]
    exact hle
  | setInitialCongestionWindowInPackets n =>
    rw [← Except.ok.inj h, setInitialCongestionWindowInPackets]
    split
    · show s.minCongestionWindow ≤ u64 (n * kDefaultTCPMSS)
      rw [hs.minCongestionWindow]
      exact hset
    · exact hle
  | onCongestionEvent ev => exact (onCongestionEvent_limits hs h).2 hle

theorem copaStep_decreasesSafely_iff {s : CopaSender φ} (hs : s.Limits) (op : CopaOp) :
    DecreasesSafely R F s op ↔ DecreasesAboveMinimum R F s op :=
  forall_congr' fun _ => imp_congr_right fun _ => imp_congr_right fun hdec =>
    onCongestionEvent_safe_iff hs hdec

/-- The decrease path of a run is safe exactly when it is always taken with a window
that is at least the minimum, as it is in every run whose initial windows are. -/
theorem decreases_safely_iff (R : Rounding) (F : MinFilter φ) (initial maximum : Nat)
    (ops : List CopaOp) :
    (Each (copaStep R F) (DecreasesSafely R F) (new F initial maximum) ops ↔
      Each (copaStep R F) (DecreasesAboveMinimum R F) (new F initial maximum) ops) ∧
    (kDefaultMinimumCongestionWindow ≤ u64 (initial * kDefaultTCPMSS) →
      (∀ op ∈ ops, SetsAtLeastMinimum op) →
      Each (copaStep R F) (DecreasesSafely R F) (new F initial maximum) ops) := by
  have hnew := new_limits F initial maximum
  constructor
  · apply each_iff (I := CopaSender.Limits) ?_ ?_ hnew
    · intro s op hs
      exact copaStep_decreasesSafely_iff hs op
    · intro s op t hs _ h
      exact copaStep_limits hs h
  · intro hinitial hset
    have hset' : Each (copaStep R F) (fun _ op => SetsAtLeastMinimum op)
        (new F initial maximum) ops := each_of_forall_mem hset
    apply each_of_each (I := fun s => s.Limits ∧ s.minCongestionWindow ≤ s.congestionWindow)
      ?_ ?_ ⟨hnew, hinitial⟩ hset'
    · intro s op hs _
      exact (copaStep_decreasesSafely_iff hs.1 op).2 fun _ _ _ => hs.2
    · intro s op t hs hop h
      exact ⟨copaStep_limits hs.1 h, copaStep_aboveMinimum hs.1 hs.2 hop h⟩

/-- Two packets of a sender with an initial window of one packet: the second one
was delayed for a second. -/
def delayedPacket : List CopaOp :=
  [.onPacketSent 1, .onPacketSent 2,
    .onCongestionEvent ⟨10000, 10000, 2000000, [1], []⟩,
    .onCongestionEvent ⟨1000000, 130000, 2010000, [2], []⟩]

/-- The difference wraps, so the whole reduction is taken from a smaller window. -/
theorem delayedPacket_underflows :
    u64Sub (1 * kDefaultTCPMSS) kDefaultMinimumCongestionWindow = 2 ^ 64 - 3 * kDefaultTCPMSS ∧
      delayedPacket.foldlM (copaStep exact slidingMin) (new slidingMin 1 2000) =
        .error .underflow := by
  decide +kernel

end QuicOnNs3.CcAlgo.Copa
