import Mathlib.Data.Nat.Digits.Lemmas

/-!
# Decimal texts

`Decimal.text i` is the decimal text of an integer, and `Decimal.value` reads a text. `Canonical l i`
says what makes a text the one of `i`: a sign exactly where `i` is negative, digits behind it, no zero
in front of them but for a zero alone, and the value `i` (`text_canonical`).
-/

namespace Decimal

/-- The character of a digit. -/
def digit (d : Nat) : UInt8 := UInt8.ofNat (48 + d)

/-- The digits of a number, the highest first; none for zero. -/
def digits (n : Nat) : List UInt8 := ((Nat.digits 10 n).map digit).reverse

/-- The text of a number without a sign. -/
def unsigned (n : Nat) : List UInt8 := if n = 0 then [digit 0] else digits n

def text (i : Int) : List UInt8 := if i < 0 then 45 :: unsigned i.natAbs else unsigned i.natAbs

/-- The number that digits stand for. -/
def digitsValue (l : List UInt8) : Nat := l.foldl (fun v c => 10 * v + (c.toNat - 48)) 0

/-- The number that a text stands for. -/
def value : List UInt8 → Int
  | [] => 0
  | c :: l => if c = 45 then -(digitsValue l : Int) else digitsValue (c :: l)

/-- The text of `i`, without anything to leave out. -/
structure Canonical (l : List UInt8) (i : Int) : Prop where
  sign : l.head? = some 45 ↔ i < 0
  digits : ∃ d, l = (if i < 0 then 45 :: d else d) ∧ d ≠ [] ∧ (∀ c ∈ d, 48 ≤ c ∧ c ≤ 57) ∧
    (d.head? = some 48 → d = [48])
  value : value l = i

section

variable {n d : Nat} {c : UInt8}

theorem digit_toNat (h : d < 10) : (digit d).toNat = 48 + d := by
  unfold digit
  rw [UInt8.toNat_ofNat', Nat.mod_eq_of_lt (by omega)]

/-- The last digit is the remainder. -/
theorem digits_step (h : n ≠ 0) : digits n = digits (n / 10) ++ [digit (n % 10)] := by
  unfold digits
  rw [Nat.digits_eq_cons_digits_div (by decide) h, List.map_cons, List.reverse_cons]

theorem digits_length_le {k : Nat} (h : n < 10 ^ k) : (digits n).length ≤ k := by
  unfold digits
  rw [List.length_reverse, List.length_map]
  exact (Nat.digits_length_le_iff (by decide) n).2 h

theorem mem_digits (h : c ∈ digits n) : 48 ≤ c ∧ c ≤ 57 := by
  unfold digits at h
  rw [List.mem_reverse, List.mem_map] at h
  obtain ⟨d, hd, rfl⟩ := h
  have hlt : d < 10 := Nat.digits_lt_base (by decide) hd
  rw [UInt8.le_iff_toNat_le, UInt8.le_iff_toNat_le, digit_toNat hlt]
  exact ⟨Nat.le_add_right 48 d, by show 48 + d ≤ 57; omega⟩

theorem digits_ne_nil (h : n ≠ 0) : digits n ≠ [] := by
  rw [digits_step h]
  simp

/-- There is no zero in front. -/
theorem head_digits (h : n ≠ 0) : (digits n).head? ≠ some 48 := by
  intro hzero
  have hnil : Nat.digits 10 n ≠ [] := Nat.digits_ne_nil_iff_ne_zero.2 h
  unfold digits at hzero
  rw [List.head?_reverse, List.getLast?_map, List.getLast?_eq_some_getLast hnil, Option.map_some,
    Option.some.injEq] at hzero
  have hlt : (Nat.digits 10 n).getLast hnil < 10 :=
    Nat.digits_lt_base (by decide) (List.getLast_mem hnil)
  have hd := congrArg UInt8.toNat hzero
  rw [digit_toNat hlt] at hd
  have hne := Nat.getLast_digit_ne_zero 10 h
  have : (48 : UInt8).toNat = 48 := rfl
  omega

theorem digitsValue_append (l : List UInt8) (c : UInt8) :
    digitsValue (l ++ [c]) = 10 * digitsValue l + (c.toNat - 48) := by
  unfold digitsValue
  rw [List.foldl_append]
  rfl

/-- The digits are read back. -/
theorem digitsValue_digits (n : Nat) : digitsValue (digits n) = n := by
  induction n using Nat.strong_induction_on with
  | _ n ih =>
    by_cases h : n = 0
    · rw [h]
      rfl
    · rw [digits_step h, digitsValue_append, ih (n / 10) (by omega), digit_toNat (by omega)]
      omega

/-! ## Texts -/

@[simp] theorem value_sign (l : List UInt8) : value (45 :: l) = -(digitsValue l : Int) := by
  simp [value]

theorem value_cons (l : List UInt8) (h : c ≠ 45) : value (c :: l) = digitsValue (c :: l) := if_neg h

theorem mem_unsigned (h : c ∈ unsigned n) : 48 ≤ c ∧ c ≤ 57 := by
  unfold unsigned at h
  split at h
  · rw [List.mem_singleton.1 h]
    decide
  · exact mem_digits h

theorem unsigned_ne_nil (n : Nat) : unsigned n ≠ [] := by
  unfold unsigned
  split
  · simp
  · rename_i h
    exact digits_ne_nil h

theorem head_unsigned (h : (unsigned n).head? = some 48) : unsigned n = [48] := by
  unfold unsigned at h ⊢
  split at h
  · rename_i h0
    rw [if_pos h0]
    rfl
  · rename_i h0
    exact absurd h (head_digits h0)

theorem digitsValue_unsigned (n : Nat) : digitsValue (unsigned n) = n := by
  unfold unsigned
  split
  · rename_i h
    rw [h]
    rfl
  · exact digitsValue_digits n

/-- A sign is no digit. -/
theorem head_unsigned_ne (n : Nat) : (unsigned n).head? ≠ some 45 := by
  intro h
  have hmem : 45 ∈ unsigned n := List.mem_of_mem_head? h
  exact absurd (mem_unsigned hmem).1 (by decide)

theorem value_unsigned (n : Nat) : value (unsigned n) = n := by
  have hhead := head_unsigned_ne n
  have hvalue := digitsValue_unsigned n
  cases hl : unsigned n with
  | nil => exact absurd hl (unsigned_ne_nil n)
  | cons c l =>
    rw [hl] at hhead hvalue
    have hc : c ≠ 45 := fun h => hhead (by rw [h]; rfl)
    rw [value_cons l hc, hvalue]

/-- **The text of an integer is canonical**, and it is read back. -/
theorem text_canonical (i : Int) : Canonical (text i) i := by
  unfold text
  have hdigits : unsigned i.natAbs ≠ [] ∧ (∀ c ∈ unsigned i.natAbs, 48 ≤ c ∧ c ≤ 57) ∧
      ((unsigned i.natAbs).head? = some 48 → unsigned i.natAbs = [48]) :=
    ⟨unsigned_ne_nil _, fun _ => mem_unsigned, head_unsigned⟩
  by_cases h : i < 0
  · rw [if_pos h]
    refine ⟨iff_of_true rfl h, ⟨_, (if_pos h).symm, hdigits⟩, ?_⟩
    rw [value_sign, digitsValue_unsigned]
    omega
  · rw [if_neg h]
    refine ⟨iff_of_false (head_unsigned_ne _) h, ⟨_, (if_neg h).symm, hdigits⟩, ?_⟩
    rw [value_unsigned]
    omega

end

end Decimal
