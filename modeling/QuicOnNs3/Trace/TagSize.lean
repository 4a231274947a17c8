import Mathlib.Data.Nat.Digits.Lemmas
import QuicOnNs3.Trace.Tag

/-!
# The size of the packet tag

ns-3 allocates `GetSerializedSize` bytes for a tag, and `Serialize` writes its two
varints into them.  `varint_length` counts the digits of a signed copy of the
value, which is negative from 2^63 on: there it counts one byte where
`VarintEncode` writes ten (`varintLength_eq_iff`, `serialize_fits_iff`).

The second half is about the strings that `VarientDecode` reads.  A `VarintString`
carries its top bits, and the encoder gives back exactly the strings with no
padding (`varientDecode_varintString`).
-/

namespace QuicOnNs3.Trace

/-! ## The length of a varint -/

theorem toInt_div_128 (next : Int64) : (next / 128).toInt = next.toInt.tdiv 128 :=
  Int64.toInt_div_of_ne_right next 128 (by decide)

/-- The division truncates, so its result is positive for positive values only. -/
theorem div_128_pos {next : Int64} (h : 0 < next / 128) :
    0 < next.toInt ∧ (next / 128).toInt = next.toInt / 128 := by
  rw [Int64.lt_iff_toInt_lt, Int64.toInt_zero, toInt_div_128] at h
  have hpos : 0 < next.toInt := by
    by_contra hle
    have hneg : 0 ≤ (-next.toInt).tdiv 128 := Int.tdiv_nonneg (by omega) (by decide)
    rw [Int.neg_tdiv] at hneg
    omega
  rw [toInt_div_128]
  exact ⟨hpos, Int.tdiv_eq_ediv_of_nonneg (by omega)⟩

/-- The loop of `varint_length`. -/
def varintLengthLoop (next : Int64) (key : Nat) : Nat :=
  if 0 < next / 128 then varintLengthLoop (next / 128) (key + 1) else key + 1
termination_by next.toInt.toNat
decreasing_by
  rename_i h
  have ⟨hpos, hdiv⟩ := div_128_pos h
  omega

/-- `varint_length`. -/
def varintLength (number : UInt64) : Nat :=
  let next := number.toInt64
  if next ≠ 0 then varintLengthLoop next 0 else 0

/-- `Ns3QuicTag::GetSerializedSize`. -/
def Ns3QuicTag.getSerializedSize (tag : Ns3QuicTag) : Nat :=
  varintLength tag.seq + varintLength tag.time

theorem continued_length : ∀ ds : List Nat, (continued ds).length = ds.length
  | [] => rfl
  | [_] => rfl
  | _ :: d' :: ds => congrArg (· + 1) (continued_length (d' :: ds))

theorem continued_cons (d : Nat) {ds : List Nat} (h : ds ≠ []) :
    continued (d :: ds) = (UInt8.ofNat d ||| 128) :: continued ds := by
  cases ds with
  | nil => exact absurd rfl h
  | cons d' ds => rfl

theorem varintEncode_length (value : UInt64) :
    (varintEncode value).length = (Nat.digits 128 value.toNat).length := by
  rw [varintEncode_eq, continued_length]

/-- On a positive value the loop counts the digits. -/
theorem varintLengthLoop_pos (next : Int64) (key : Nat) (h : 0 < next.toInt) :
    varintLengthLoop next key = key + (Nat.digits 128 next.toInt.toNat).length := by
  induction next, key using varintLengthLoop.induct with
  | case1 next key hlt ih =>
    obtain ⟨_, hdiv⟩ := div_128_pos hlt
    rw [Int64.lt_iff_toInt_lt, Int64.toInt_zero] at hlt
    have hnat : (next / 128).toInt.toNat = next.toInt.toNat / 128 := by omega
    rw [varintLengthLoop, if_pos (by rwa [Int64.lt_iff_toInt_lt]), ih hlt, hnat,
      Nat.digits_def' (by omega : 1 < 128) (by omega : 0 < next.toInt.toNat), List.length_cons]
    omega
  | case2 next key hge =>
    have hzero : next.toInt.toNat / 128 = 0 := by
      rw [Int64.lt_iff_toInt_lt, Int64.toInt_zero, toInt_div_128,
        Int.tdiv_eq_ediv_of_nonneg (by omega)] at hge
      omega
    rw [varintLengthLoop, if_neg hge,
      Nat.digits_def' (by omega : 1 < 128) (by omega : 0 < next.toInt.toNat), hzero]
    rfl

/-- On a negative value the loop stops at once. -/
theorem varintLengthLoop_neg (next : Int64) (key : Nat) (h : next.toInt < 0) :
    varintLengthLoop next key = key + 1 := by
  have hstop : ¬ 0 < next / 128 := fun hlt => by
    obtain ⟨hpos, _⟩ := div_128_pos hlt
    omega
  rw [varintLengthLoop, if_neg hstop]

theorem toInt64_toInt (number : UInt64) :
    number.toInt64.toInt = if number.toNat < 2 ^ 63 then (number.toNat : Int)
      else (number.toNat : Int) - 2 ^ 64 := by
  have hcond := BitVec.toInt_eq_toNat_cond number.toBitVec
  change number.toInt64.toInt = if 2 * number.toNat < 2 ^ 64 then (number.toNat : Int)
    else (number.toNat : Int) - 2 ^ 64 at hcond
  rw [hcond]
  split_ifs <;> omega

/-- `varint_length` counts the digits of a value below 2^63. -/
theorem varintLength_of_lt {number : UInt64} (h : number.toNat < 2 ^ 63) :
    varintLength number = (varintEncode number).length := by
  have hint : number.toInt64.toInt = number.toNat := by rw [toInt64_toInt, if_pos h]
  rw [varintEncode_length, varintLength]
  by_cases hzero : number = 0
  · rw [hzero]
    rfl
  · have hpos := toNat_pos hzero
    have hne : number.toInt64 ≠ 0 := fun h0 => by
      rw [h0, Int64.toInt_zero] at hint
      omega
    rw [if_pos hne, varintLengthLoop_pos _ 0 (by omega), hint]
    simp

/-- From 2^63 on it counts one byte, and the encoder writes ten. -/
theorem varintLength_of_ge {number : UInt64} (h : 2 ^ 63 ≤ number.toNat) :
    varintLength number = 1 ∧ (varintEncode number).length = 10 := by
  have hlt := number.toNat_lt
  have hint : number.toInt64.toInt = (number.toNat : Int) - 2 ^ 64 := by
    rw [toInt64_toInt, if_neg (by omega)]
  constructor
  · have hne : number.toInt64 ≠ 0 := fun h0 => by
      rw [h0, Int64.toInt_zero] at hint
      omega
    rw [varintLength, if_pos hne, varintLengthLoop_neg _ 0 (by omega)]
  · rw [varintEncode_length]
    have hge := (Nat.lt_digits_length_iff (k := 9) (by omega : 1 < 128) number.toNat).2 (by omega)
    have hle := (Nat.digits_length_le_iff (k := 10) (by omega : 1 < 128) number.toNat).2 (by omega)
    omega

theorem serialize_length (tag : Ns3QuicTag) :
    tag.serialize.length = (varintEncode tag.seq).length + (varintEncode tag.time).length :=
  List.length_append

/-- `varint_length` and `VarintEncode` agree exactly below 2^63, and with both fields
there the size of the tag is the one that `Serialize` writes.  For every other tag
`Serialize` writes past the end. -/
theorem getSerializedSize_eq_iff (n : UInt64) (tag : Ns3QuicTag) :
    (varintLength n = (varintEncode n).length ↔ n.toNat < 2 ^ 63) ∧
    (tag.getSerializedSize = tag.serialize.length ↔
      tag.seq.toNat < 2 ^ 63 ∧ tag.time.toNat < 2 ^ 63) ∧
    (tag.serialize.length ≤ tag.getSerializedSize ↔
      tag.seq.toNat < 2 ^ 63 ∧ tag.time.toNat < 2 ^ 63) := by
  have hcases (m : UInt64) : varintLength m = (varintEncode m).length ∧ m.toNat < 2 ^ 63 ∨
      varintLength m < (varintEncode m).length ∧ 2 ^ 63 ≤ m.toNat := by
    rcases Nat.lt_or_ge m.toNat (2 ^ 63) with hlt | hge
    · exact Or.inl ⟨varintLength_of_lt hlt, hlt⟩
    · obtain ⟨hone, hten⟩ := varintLength_of_ge hge
      exact Or.inr ⟨by omega, hge⟩
  constructor
  · have hn := hcases n
    omega
  · have hseq := hcases tag.seq
    have htime := hcases tag.time
    rw [serialize_length, Ns3QuicTag.getSerializedSize]
    omega

/-- A sequence number of 2^63 takes nine bytes more than are allocated for it. -/
theorem getSerializedSize_two_pow_63 :
    varintLength 0x8000000000000000 = 1 ∧ (varintEncode 0x8000000000000000).length = 10 ∧
      Ns3QuicTag.getSerializedSize ⟨0x8000000000000000, 1⟩ = 2 ∧
      (Ns3QuicTag.serialize ⟨0x8000000000000000, 1⟩).length = 11 := by
  have hge : 2 ^ 63 ≤ (0x8000000000000000 : UInt64).toNat := by decide
  have ⟨hone, hten⟩ := varintLength_of_ge hge
  have hlen : (varintEncode 1).length = 1 := by
    rw [varintEncode_length]
    simp
  have htime : varintLength 1 = 1 := by
    rw [varintLength_of_lt (by decide), hlen]
  refine ⟨hone, hten, ?_, ?_⟩
  · rw [Ns3QuicTag.getSerializedSize, hone, htime]
  · rw [serialize_length, hten, hlen]

/-! ## Canonical strings -/

/-- A string as `VarientDecode` reads it: the top bit is set on every byte but the
last. -/
structure VarintString where
  init : List UInt8
  last : UInt8
  continues : ∀ b ∈ init, 128 ≤ b.toNat
  ends : last.toNat < 128

namespace VarintString

/-- The bytes of the string. -/
def bytes (s : VarintString) : List UInt8 := s.init ++ [s.last]

/-- The digits that the bytes carry. -/
def digits (s : VarintString) : List Nat := s.bytes.map (·.toNat % 128)

/-- The positional sum of the digits. -/
def value (s : VarintString) : Nat := (s.bytes.mapIdx fun i b => b.toNat % 128 * 128 ^ i).sum

theorem ofNat_digit_continued : ∀ d : Fin 128,
    UInt8.ofNat d.val ||| 128 = UInt8.ofNat (d.val + 128) := by
  decide

theorem digit_continued {b : UInt8} (h : 128 ≤ b.toNat) :
    UInt8.ofNat (b.toNat % 128) ||| 128 = b := by
  have hlt := b.toNat_lt
  have hsplit : b.toNat % 128 + 128 = b.toNat := by omega
  have hb := ofNat_digit_continued ⟨b.toNat % 128, by omega⟩
  rwa [hsplit, UInt8.ofNat_toNat] at hb

/-- The bytes are the ones of the digits. -/
theorem continued_map_mod {init : List UInt8} {last : UInt8}
    (hinit : ∀ b ∈ init, 128 ≤ b.toNat) (hlast : last.toNat < 128) :
    continued ((init ++ [last]).map (·.toNat % 128)) = init ++ [last] := by
  induction init with
  | nil =>
    show [UInt8.ofNat (last.toNat % 128)] = [last]
    rw [Nat.mod_eq_of_lt hlast, UInt8.ofNat_toNat]
  | cons b init ih =>
    have hb := digit_continued (hinit b (List.mem_cons_self ..))
    have ih := ih fun c hc => hinit c (List.mem_cons_of_mem _ hc)
    rw [List.cons_append, List.map_cons, continued_cons _ (by simp), ih, hb]

variable (s : VarintString)

theorem continued_digits : continued s.digits = s.bytes := continued_map_mod s.continues s.ends

theorem digits_lt : ∀ d ∈ s.digits, d < 128 := by
  intro d hd
  have ⟨b, _, hb⟩ := List.mem_map.1 hd
  omega

theorem ofDigits_digits : Nat.ofDigits 128 s.digits = s.value := by
  rw [Nat.ofDigits_eq_sum_mapIdx, digits, value]
  congr 1
  exact List.ext_getElem (by simp) (by simp)

theorem digits_length : s.digits.length = s.bytes.length := List.length_map ..

/-- The last digit is the last byte. -/
theorem digits_eq : s.digits = s.init.map (·.toNat % 128) ++ [s.last.toNat] := by
  rw [digits, bytes, List.map_append, List.map_singleton, Nat.mod_eq_of_lt s.ends]

theorem value_lt : s.value < 128 ^ s.bytes.length := by
  rw [← ofDigits_digits, ← digits_length]
  exact Nat.ofDigits_lt_base_pow_length (by omega) s.digits_lt

/-- The digits of the value are the digits of the string, when the last one is not
padding. -/
theorem digits_value (h : s.last ≠ 0) : Nat.digits 128 s.value = s.digits := by
  rw [← ofDigits_digits]
  refine Nat.digits_ofDigits 128 (by omega) _ s.digits_lt fun hne => ?_
  simp only [digits_eq, List.getLast_append_singleton]
  intro h0
  exact h (UInt8.toNat_inj.1 h0)

/-- A last digit 0 is padding: the value has fewer digits. -/
theorem digits_value_length (h : s.last = 0) :
    (Nat.digits 128 s.value).length < s.bytes.length := by
  have hinit : s.value = Nat.ofDigits 128 (s.init.map (·.toNat % 128)) := by
    rw [← ofDigits_digits, digits_eq, Nat.ofDigits_append, h]
    simp
  have hlt : s.value < 128 ^ s.init.length := by
    have hlength : (s.init.map (·.toNat % 128)).length = s.init.length := List.length_map _
    rw [hinit, ← hlength]
    refine Nat.ofDigits_lt_base_pow_length (by omega) fun d hd => ?_
    obtain ⟨b, _, hb⟩ := List.mem_map.1 hd
    omega
  have hle := (Nat.digits_length_le_iff (by omega : 1 < 128) s.value).2 hlt
  rw [bytes, List.length_append, List.length_singleton]
  omega

end VarintString

/-- `VarientDecode` reads a string of up to nine bytes to its positional sum, whatever
follows, and `VarintEncode` writes the string back exactly when its last byte is not
0.  Otherwise it writes fewer bytes. -/
theorem varientDecode_varintString (s : VarintString) (hlen : s.bytes.length ≤ 9)
    (i : List UInt8) :
    ∃ v : UInt64, varientDecode (s.bytes ++ i) = some (v, i) ∧ v.toNat = s.value ∧
      (varintEncode v = s.bytes ↔ s.last ≠ 0) ∧
      (s.last = 0 → (varintEncode v).length < s.bytes.length) := by
  have hlt : s.value < 2 ^ 63 := by
    have hpow := Nat.pow_le_pow_right (by omega : 0 < 128) hlen
    have hval := s.value_lt
    omega
  have hnat : (UInt64.ofNat s.value).toNat = s.value := UInt64.toNat_ofNat_of_lt' (by
    show s.value < 2 ^ 64
    omega)
  have hshort : s.last = 0 → (varintEncode (UInt64.ofNat s.value)).length < s.bytes.length := by
    intro h
    rw [varintEncode_length, hnat]
    exact s.digits_value_length h
  refine ⟨UInt64.ofNat s.value, ?_, hnat, ⟨?_, ?_⟩, hshort⟩
  · have hne : s.digits ≠ [] := by simp [VarintString.digits_eq]
    rw [← s.continued_digits, varientDecode_continued hne s.digits_lt, s.ofDigits_digits]
  · intro h h0
    have hlt := hshort h0
    rw [h] at hlt
    omega
  · intro h
    rw [varintEncode_eq, hnat, s.digits_value h, s.continued_digits]

/-- The padded string `[133, 128, 0]` is read as 5, which the encoder writes in one
byte. -/
theorem varientDecode_padded_five :
    ∃ v : UInt64, varientDecode [133, 128, 0, 7] = some (v, [7]) ∧ v.toNat = 5 ∧
      (varintEncode v).length < 3 := by
  have ⟨v, hdecode, hv, _, hshort⟩ :=
    varientDecode_varintString ⟨[133, 128], 0, by simp, by decide⟩ (by decide) [7]
  exact ⟨v, hdecode, hv, hshort rfl⟩

end QuicOnNs3.Trace
