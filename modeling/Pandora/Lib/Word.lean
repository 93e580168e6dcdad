import Mathlib.Data.Nat.Bitwise

/-!
# 32-bit words

An unsigned 32-bit value is a natural number below `2 ^ 32`; `Word.add`, `Word.sub` and `Word.mul`
wrap. `Word.toInt n` reads the low 32 bits of `n` in two's complement and `Word.ofInt z` is
the bit pattern of `z`. The mask lemmas turn the bit operations on page-aligned words (clearing
the low 12 bits, adding flags below 4096) into arithmetic.
-/

namespace Word

-- the literal is the left summand: `x + 2 ^ 32` unfolds into `2 ^ 32` successors
def add (a b : Nat) : Nat := (b + a) % 2 ^ 32
def sub (a b : Nat) : Nat := (2 ^ 32 - b % 2 ^ 32 + a) % 2 ^ 32
def mul (a b : Nat) : Nat := a * b % 2 ^ 32

/-- The low 32 bits of `n`, read in two's complement. -/
def toInt (n : Nat) : Int :=
  if n % 2 ^ 32 < 2 ^ 31 then (n % 2 ^ 32 : Nat) else ((n % 2 ^ 32 : Nat) : Int) - 2 ^ 32

/-- The 32-bit pattern of `z`. -/
def ofInt (z : Int) : Nat := (z % 2 ^ 32).toNat

/-- The value an `int` that wraps holds for `z`. -/
def int (z : Int) : Int := toInt (ofInt z)

theorem add_lt (a b : Nat) : add a b < 2 ^ 32 := Nat.mod_lt _ (by decide)

theorem sub_lt (a b : Nat) : sub a b < 2 ^ 32 := Nat.mod_lt _ (by decide)

theorem add_eq (a b : Nat) : add a b = (a + b) % 2 ^ 32 := by rw [add, Nat.add_comm]

theorem add_of_lt {a b : Nat} (h : a + b < 2 ^ 32) : add a b = a + b := by
  rw [add_eq, Nat.mod_eq_of_lt h]

theorem mul_eq (a b : Nat) : mul a b = a * b % 2 ^ 32 := rfl

theorem mul_of_lt {a b : Nat} (h : a * b < 2 ^ 32) : mul a b = a * b := Nat.mod_eq_of_lt h

theorem sub_eq (a b : Nat) : sub a b = (2 ^ 32 - b % 2 ^ 32 + a) % 2 ^ 32 := rfl

theorem sub_of_le {a b : Nat} (h : b ≤ a) (ha : a < 2 ^ 32) : sub a b = a - b := by
  unfold sub
  omega

theorem toInt_of_lt {n : Nat} (h : n < 2 ^ 31) : toInt n = n := by
  unfold toInt
  rw [Nat.mod_eq_of_lt (by omega), if_pos h]

theorem toInt_of_ge {n : Nat} (h : 2 ^ 31 ≤ n) (h' : n < 2 ^ 32) : toInt n = n - 2 ^ 32 := by
  unfold toInt
  rw [Nat.mod_eq_of_lt h', if_neg (by omega)]

theorem ofInt_natCast {n : Nat} (h : n < 2 ^ 32) : ofInt n = n := by
  unfold ofInt
  omega

theorem ofInt_neg {z : Int} (h : z < 0) (h' : -2 ^ 32 ≤ z) : (ofInt z : Int) = z + 2 ^ 32 := by
  unfold ofInt
  omega

theorem ofInt_lt (z : Int) : ofInt z < 2 ^ 32 := by
  unfold ofInt
  omega

theorem int_of_mem {z : Int} (h : -2 ^ 31 ≤ z) (h' : z < 2 ^ 31) : int z = z := by
  unfold int toInt ofInt
  split <;> omega

theorem ofInt_int (z : Int) : ofInt (int z) = ofInt z := by
  unfold int toInt ofInt
  split <;> omega

theorem int_int_add (y z : Int) : int (int y + z) = int (y + z) := by
  unfold int toInt ofInt
  split <;> split <;> omega

theorem int_int (z : Int) : int (int z) = int z := by
  unfold int
  exact congrArg toInt (ofInt_int z)

theorem toInt_eq_int (n : Nat) : toInt n = int n := by
  unfold int toInt ofInt
  split <;> split <;> omega

theorem ofInt_natCast_mod (n : Nat) : ofInt n = n % 2 ^ 32 := by
  unfold ofInt
  omega

-- reasoning goes through the lemmas above: unfolded, the literals make `rfl` count to `2 ^ 32`
attribute [irreducible] add sub mul toInt ofInt int

/-! ## Page masks -/

/-- A mask of `a` ones above `b` zeros keeps the field of width `a` at bit `b`. -/
theorem and_field (x a b : Nat) : x &&& (2 ^ a - 1) * 2 ^ b = x / 2 ^ b % 2 ^ a * 2 ^ b := by
  refine Nat.eq_of_testBit_eq fun j => ?_
  simp only [Nat.testBit_and, Nat.testBit_mul_two_pow, Nat.testBit_two_pow_sub_one,
    Nat.testBit_mod_two_pow, Nat.testBit_div_two_pow]
  by_cases hj : b ≤ j
  · simp [hj, Bool.and_comm]
  · simp [hj]

/-- Clearing the low `12` bits of a word. -/
theorem and_page_mask {x : Nat} (h : x < 2 ^ 32) : x &&& 0xFFFFF000 = x / 4096 * 4096 := by
  have := and_field x 20 12
  rw [Nat.mod_eq_of_lt (by omega)] at this
  exact this

/-- Clearing the low `12` bits of a word and its top four. -/
theorem and_page_mask_28 (x : Nat) : x &&& 0xFFFF000 = x / 4096 % 2 ^ 16 * 4096 :=
  and_field x 16 12

/-- Setting flags below `4096` in a page-aligned word adds them. -/
theorem or_flags {x f : Nat} (hx : x % 4096 = 0) (hf : f < 4096) : x ||| f = x + f := by
  obtain ⟨q, rfl⟩ : ∃ q, x = 2 ^ 12 * q := ⟨x / 4096, by omega⟩
  exact (Nat.two_pow_add_eq_or_of_lt hf q).symm

end Word
