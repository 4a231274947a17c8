import Mathlib.Data.Nat.Digits.Lemmas

/-!
# The packet tag

Every packet carries an `Ns3QuicTag` with its sequence number and its send
time in milliseconds, each written as a varint: seven bits of the value a
byte, the lowest first, and the top bit set on every byte but the last.

`VarintEncode` writes the base-128 digits of the value, and 0 has none
(`varintEncode_eq`).  `VarientDecode` reads a string of digits back to its
value, and it always reads a byte (`varientDecode_continued`).  So the two agree
on every value but 0, and `deserialize_serialize_iff` is the round trip of the
whole tag.
-/

namespace QuicOnNs3.Trace

/-! ## The codec -/

/-- The loop of `VarintEncode`: the bytes that `WriteU8` is called with. -/
def varintEncodeLoop (next : UInt64) : List UInt8 :=
  let first := (next % 128).toUInt8
  if 0 < next / 128 then (first ||| 128) :: varintEncodeLoop (next / 128) else [first]
termination_by next.toNat
decreasing_by
  rename_i h
  simp only [UInt64.lt_iff_toNat_lt, UInt64.toNat_div, UInt64.reduceToNat] at h ⊢
  omega

/-- `Ns3QuicTag::VarintEncode`. -/
def varintEncode (value : UInt64) : List UInt8 :=
  if value ≠ 0 then varintEncodeLoop value else []

/-- The loop of `VarientDecode`, which `ReadU8` stops at the end of the bytes. -/
def varientDecodeLoop (remain remainMulti : UInt64) : List UInt8 → Option (UInt64 × List UInt8)
  | [] => none
  | byte :: i =>
    let remain := remain + (byte &&& 127).toUInt64 * remainMulti
    if byte &&& 128 ≠ 0 then varientDecodeLoop remain (remainMulti * 128) i
    else some (remain, i)

/-- `Ns3QuicTag::VarientDecode`: the value and the bytes after it. -/
def varientDecode (i : List UInt8) : Option (UInt64 × List UInt8) := varientDecodeLoop 0 1 i

/-- The tag of a packet. -/
structure Ns3QuicTag where
  seq : UInt64 := 0
  time : UInt64 := 0
  deriving DecidableEq, Repr

/-- `Ns3QuicTag::Serialize`. -/
def Ns3QuicTag.serialize (tag : Ns3QuicTag) : List UInt8 :=
  varintEncode tag.seq ++ varintEncode tag.time

/-- `Ns3QuicTag::Deserialize`: the tag and the bytes after it, or `none` when it
reads past the end. -/
def Ns3QuicTag.deserialize (i : List UInt8) : Option (Ns3QuicTag × List UInt8) := do
  let (seq, i) ← varientDecode i
  let (time, i) ← varientDecode i
  return (⟨seq, time⟩, i)

/-! ## Strings of digits -/

/-- The bytes of a string of digits: the top bit on every byte but the last. -/
def continued : List Nat → List UInt8
  | [] => []
  | [d] => [UInt8.ofNat d]
  | d :: ds => (UInt8.ofNat d ||| 128) :: continued ds

/-- The bits of a byte that carries a digit. -/
theorem digit_bits : ∀ d : Fin 128,
    UInt8.ofNat d &&& 127 = UInt8.ofNat d ∧ UInt8.ofNat d &&& 128 = 0 ∧
      (UInt8.ofNat d ||| 128) &&& 127 = UInt8.ofNat d ∧ (UInt8.ofNat d ||| 128) &&& 128 ≠ 0 := by
  decide

theorem digit_toUInt64 {d : Nat} (h : d < 128) : (UInt8.ofNat d).toUInt64 = UInt64.ofNat d := by
  apply UInt64.toNat_inj.1
  simp only [UInt8.toNat_toUInt64, UInt8.toNat_ofNat', UInt64.toNat_ofNat']
  omega

theorem ofDigits_cons_uint64 (d : Nat) (ds : List Nat) :
    UInt64.ofNat (Nat.ofDigits 128 (d :: ds)) =
      UInt64.ofNat d + 128 * UInt64.ofNat (Nat.ofDigits 128 ds) := by
  simp [Nat.ofDigits_cons, UInt64.ofNat_add, UInt64.ofNat_mul]

/-- One step of the decoder's running sum, modulo 2^64. -/
theorem digit_step (remain d remainMulti v : UInt64) :
    remain + d * remainMulti + v * (remainMulti * 128) =
      remain + (d + 128 * v) * remainMulti := by
  grind

/-- The decoder reads a string of digits back, whatever follows it. -/
theorem varientDecodeLoop_continued (remain remainMulti : UInt64) {ds : List Nat}
    (hne : ds ≠ []) (hlt : ∀ d ∈ ds, d < 128) (i : List UInt8) :
    varientDecodeLoop remain remainMulti (continued ds ++ i) =
      some (remain + UInt64.ofNat (Nat.ofDigits 128 ds) * remainMulti, i) := by
  induction ds generalizing remain remainMulti with
  | nil => exact absurd rfl hne
  | cons d ds ih =>
    have hd : d < 128 := hlt d (by simp)
    obtain ⟨h127, h128, hc127, hc128⟩ := digit_bits ⟨d, hd⟩
    simp only at h127 h128 hc127 hc128
    rw [ofDigits_cons_uint64]
    cases ds with
    | nil =>
      simp only [continued, List.cons_append, List.nil_append, varientDecodeLoop, h127, h128,
        digit_toUInt64 hd]
      simp
    | cons d' ds =>
      have ih := ih (remain + UInt64.ofNat d * remainMulti) (remainMulti * 128) (by simp)
        fun k hk => hlt k (List.mem_cons_of_mem _ hk)
      simp only [continued, List.cons_append, varientDecodeLoop, hc127, hc128, ne_eq,
        not_false_eq_true, if_true, digit_toUInt64 hd] at ih ⊢
      rw [ih, digit_step]

theorem varientDecode_continued {ds : List Nat} (hne : ds ≠ []) (hlt : ∀ d ∈ ds, d < 128)
    (i : List UInt8) :
    varientDecode (continued ds ++ i) = some (UInt64.ofNat (Nat.ofDigits 128 ds), i) := by
  rw [varientDecode, varientDecodeLoop_continued 0 1 hne hlt]
  simp

theorem toNat_pos {v : UInt64} (h : v ≠ 0) : 0 < v.toNat := by
  rw [Nat.pos_iff_ne_zero]
  exact fun h0 => h (UInt64.toNat_inj.1 (by simpa using h0))

theorem toNat_div_128 (v : UInt64) : (v / 128).toNat = v.toNat / 128 := by
  simp only [UInt64.toNat_div, UInt64.reduceToNat]

/-- The encoder writes the digits of its argument. -/
theorem varintEncodeLoop_eq (next : UInt64) (h : next ≠ 0) :
    varintEncodeLoop next = continued (Nat.digits 128 next.toNat) := by
  have hfirst : ∀ v : UInt64, (v % 128).toUInt8 = UInt8.ofNat (v.toNat % 128) := by
    intro v
    apply UInt8.toNat_inj.1
    simp only [UInt64.toNat_toUInt8, UInt64.toNat_mod, UInt64.reduceToNat, UInt8.toNat_ofNat']
  induction next using varintEncodeLoop.induct with
  | case1 next hlt ih =>
    have hne : next / 128 ≠ 0 := fun h0 => by simp [h0] at hlt
    have hpos : 0 < next.toNat / 128 := toNat_div_128 next ▸ toNat_pos hne
    rw [varintEncodeLoop, if_pos hlt, ih hne, hfirst, toNat_div_128,
      Nat.digits_def' (by omega) (toNat_pos h), Nat.digits_def' (by omega) hpos]
    rfl
  | case2 next hge =>
    have hzero : next.toNat / 128 = 0 := by
      rw [← toNat_div_128]
      simpa [UInt64.lt_iff_toNat_lt] using hge
    rw [varintEncodeLoop, if_neg hge, hfirst, Nat.digits_def' (by omega) (toNat_pos h), hzero]
    rfl

theorem varintEncode_eq (value : UInt64) :
    varintEncode value = continued (Nat.digits 128 value.toNat) := by
  unfold varintEncode
  split
  · rename_i h
    exact varintEncodeLoop_eq value h
  · rename_i h
    simp [not_not.1 h, continued]

/-- The decoder inverts the encoder on every value but 0. -/
theorem varientDecode_varintEncode {value : UInt64} (h : value ≠ 0) (i : List UInt8) :
    varientDecode (varintEncode value ++ i) = some (value, i) := by
  have hne : Nat.digits 128 value.toNat ≠ [] := by
    rw [Ne, Nat.digits_eq_nil_iff_eq_zero]
    exact (toNat_pos h).ne'
  rw [varintEncode_eq, varientDecode_continued hne fun d hd => Nat.digits_lt_base (by omega) hd,
    Nat.ofDigits_digits, UInt64.ofNat_toNat]

theorem varintEncode_zero : varintEncode 0 = [] := rfl

theorem varientDecode_nil : varientDecode [] = none := rfl

/-! ## The round trip of the tag -/

/-- `Deserialize` reads back exactly what `Serialize` writes when neither field is
0, and otherwise it reads past the end. -/
theorem deserialize_serialize_iff (seq time : UInt64) :
    Ns3QuicTag.deserialize (Ns3QuicTag.serialize ⟨seq, time⟩) = some (⟨seq, time⟩, []) ↔
      seq ≠ 0 ∧ time ≠ 0 := by
  have hdecode : ∀ value : UInt64, value ≠ 0 →
      varientDecode (varintEncode value) = some (value, []) := by
    intro value h
    simpa using varientDecode_varintEncode h []
  by_cases hs : seq = 0 <;> by_cases ht : time = 0
  · simp [Ns3QuicTag.deserialize, Ns3QuicTag.serialize, hs, ht, varintEncode_zero,
      varientDecode_nil]
  · simp [Ns3QuicTag.deserialize, Ns3QuicTag.serialize, hs, varintEncode_zero, hdecode time ht,
      varientDecode_nil]
  · simp [Ns3QuicTag.deserialize, Ns3QuicTag.serialize, ht, varintEncode_zero, hdecode seq hs,
      varientDecode_nil]
  · simp [Ns3QuicTag.deserialize, Ns3QuicTag.serialize, varientDecode_varintEncode hs,
      hdecode time ht, hs, ht]

/-- The first packet of a sender that starts at time 0 cannot be read back. -/
theorem deserialize_serialize_first_packet :
    Ns3QuicTag.deserialize (Ns3QuicTag.serialize ⟨1, 0⟩) = none := by
  simp [Ns3QuicTag.deserialize, Ns3QuicTag.serialize, varintEncode, varintEncodeLoop,
    varientDecode, varientDecodeLoop]

end QuicOnNs3.Trace
