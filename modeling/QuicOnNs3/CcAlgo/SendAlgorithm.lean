import Mathlib.Algebra.Order.Ring.Canonical
import Mathlib.Algebra.Order.Ring.Nat

/-!
# What the senders share

Windows are `uint64` byte counts, with their products and sums modulo `2^64`.
RTTs and times are in microseconds, RTTs in an `int64`.  A packet number is
`none` until it is initialised.
-/

namespace QuicOnNs3.CcAlgo

/-- `kDefaultTCPMSS`. -/
def kDefaultTCPMSS : Nat := 1460

/-- A `uint64` result. -/
@[irreducible] def u64 (n : Nat) : Nat := n % 2 ^ 64

theorem u64_of_lt {n : Nat} (h : n < 2 ^ 64) : u64 n = n := by
  unfold u64
  exact Nat.mod_eq_of_lt h

theorem u64_lt (n : Nat) : u64 n < 2 ^ 64 := by
  unfold u64
  exact Nat.mod_lt _ (by decide)

theorem u64_le (n : Nat) : u64 n ≤ n := by
  unfold u64
  exact Nat.mod_le _ _

/-- `QuicTime::Delta::Infinite()`, in microseconds. -/
def kInfinite : Int := 2 ^ 63 - 1

/-- The `int64` microseconds of an RTT in an expression of type `uint64`. -/
def rttU64 (rtt : Int) : Nat := (rtt % 2 ^ 64).toNat

/-- `QuicPacketNumber::UpdateMax`. -/
def updateMax (n : Option Nat) (p : Nat) : Option Nat :=
  match n with
  | none => some p
  | some m => some (max m p)

end QuicOnNs3.CcAlgo
