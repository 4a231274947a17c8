import Mathlib.Data.List.Basic

/-!
# Fields between separators

A string of fields is a first field followed by the others, each after its
separator.  When no separator can stand in a field, the string determines its fields
and its separators (`joined_inj`), whatever their number and lengths.  Decimal
numbers between characters that are no digits are such fields (`decimals_inj`).
-/

namespace QuicOnNs3.Fields

variable {α : Type*} {p : α → Bool}

/-- The fields after the first one, each after its separator. -/
def others : List (α × List α) → List α
  | [] => []
  | (separator, field) :: rest => separator :: (field ++ others rest)

/-- A string of fields. -/
def joined (first : List α) (rest : List (α × List α)) : List α := first ++ others rest

/-- The fields are made of elements of `p`, and the separators are none. -/
structure Separated (p : α → Bool) (first : List α) (rest : List (α × List α)) : Prop where
  first : ∀ a ∈ first, p a
  fields : ∀ f ∈ rest, ∀ a ∈ f.2, p a
  separators : ∀ f ∈ rest, p f.1 = false

theorem Separated.tail {first field : List α} {separator : α} {rest : List (α × List α)}
    (h : Separated p first ((separator, field) :: rest)) : Separated p field rest where
  first := h.fields _ (List.mem_cons_self ..)
  fields f hf := h.fields f (List.mem_cons_of_mem _ hf)
  separators f hf := h.separators f (List.mem_cons_of_mem _ hf)

/-- The first field is what stands before the first separator. -/
theorem Separated.takeWhile_joined {first : List α} {rest : List (α × List α)}
    (h : Separated p first rest) : (joined first rest).takeWhile p = first := by
  rw [joined, List.takeWhile_append_of_pos h.first]
  cases rest with
  | nil => exact List.append_nil first
  | cons f rest =>
    have hsep := h.separators f (List.mem_cons_self ..)
    rw [others, List.takeWhile_cons_of_neg (by simp [hsep]), List.append_nil]

theorem Separated.first_inj {first first' : List α} {rest rest' : List (α × List α)}
    (h : Separated p first rest) (h' : Separated p first' rest')
    (heq : joined first rest = joined first' rest') :
    first = first' ∧ others rest = others rest' := by
  have hfirst : first = first' := by
    rw [← h.takeWhile_joined, heq, h'.takeWhile_joined]
  rw [hfirst, joined, joined, List.append_cancel_left_eq] at heq
  exact ⟨hfirst, heq⟩

/-- A string of fields is read in one way. -/
theorem joined_inj {first first' : List α} {rest rest' : List (α × List α)}
    (h : Separated p first rest) (h' : Separated p first' rest')
    (heq : joined first rest = joined first' rest') : first = first' ∧ rest = rest' := by
  have ⟨hfirst, hothers⟩ := h.first_inj h' heq
  refine ⟨hfirst, ?_⟩
  clear hfirst heq
  induction rest generalizing first first' rest' with
  | nil =>
    cases rest' with
    | nil => rfl
    | cons f' rest' => exact absurd hothers.symm (List.cons_ne_nil _ _)
  | cons f rest ih =>
    cases rest' with
    | nil => exact absurd hothers (List.cons_ne_nil _ _)
    | cons f' rest' =>
      obtain ⟨hsep, htail⟩ := List.cons.inj hothers
      obtain ⟨hfield, hrest⟩ := h.tail.first_inj h'.tail htail
      rw [ih h.tail h'.tail hrest, Prod.ext hsep hfield]

/-- A string of decimal numbers. -/
def decimals (first : Nat) (rest : List (Char × Nat)) : List Char :=
  joined (Nat.toDigits 10 first) (rest.map fun f => (f.1, Nat.toDigits 10 f.2))

theorem toDigits_injective : Function.Injective (Nat.toDigits 10) := by
  intro m n h
  have hvalue := congrArg (fun ds => Nat.ofDigitChars 10 ds 0) h
  simpa using hvalue

theorem separated_decimals {first : Nat} {rest : List (Char × Nat)}
    (h : ∀ f ∈ rest, f.1.isDigit = false) :
    Separated Char.isDigit (Nat.toDigits 10 first)
      (rest.map fun f => (f.1, Nat.toDigits 10 f.2)) where
  first a ha := Nat.isDigit_of_mem_toDigits (by decide) (by decide) ha
  fields f hf a ha := by
    obtain ⟨g, _, hg⟩ := List.mem_map.1 hf
    rw [← hg] at ha
    exact Nat.isDigit_of_mem_toDigits (by decide) (by decide) ha
  separators f hf := by
    obtain ⟨g, hmem, hg⟩ := List.mem_map.1 hf
    rw [← hg]
    exact h g hmem

/-- A string of decimal numbers is read in one way. -/
theorem decimals_inj {first first' : Nat} {rest rest' : List (Char × Nat)}
    (h : ∀ f ∈ rest, f.1.isDigit = false) (h' : ∀ f ∈ rest', f.1.isDigit = false)
    (heq : decimals first rest = decimals first' rest') : first = first' ∧ rest = rest' := by
  have ⟨hfirst, hrest⟩ := joined_inj (separated_decimals h) (separated_decimals h') heq
  refine ⟨toDigits_injective hfirst, List.map_injective_iff.2 ?_ hrest⟩
  intro f g hfg
  have ⟨hsep, hdigits⟩ := Prod.mk.inj hfg
  exact Prod.ext hsep (toDigits_injective hdigits)

end QuicOnNs3.Fields
