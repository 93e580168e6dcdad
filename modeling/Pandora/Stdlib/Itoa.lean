import Pandora.Lib.Decimal
import Pandora.Lib.Traced

/-!
# `itoa` (`programs/stdlib/src/stdlib.c`)

The digits are taken from a number that is not positive, so that there is one for each `int`, and go to
the static buffer `text` from its end towards its start. What the loop has written is always a string
(`itoa_loop`): the digits of the number are put in front of it.
-/

namespace Pandora

open ByteMem

/-- `text[--loc] = c` -/
def itoa.put (text : Nat) (loc : Int) (t : Traced) (c : UInt8) : Int × Traced :=
  (loc - 1, t.store (Word.ofInt (text + (loc - 1))) c)

/-- `while (i)`: `loc` and the memory behind it. The digit is cut off to a `char`. -/
def itoa.loop (text : Nat) (i loc : Int) (t : Traced) : Int × Traced :=
  if i = 0 then (loc, t)
  else
    let (loc, t) := itoa.put text loc t (UInt8.ofInt (48 - i.tmod 10))
    loop text (i.tdiv 10) loc t
termination_by i.natAbs
decreasing_by
  rw [Int.natAbs_tdiv]
  exact Nat.div_lt_self (by omega) (by decide)

/-- What is written without the sign. -/
def itoa.digits (text : Nat) (i : Int) (t : Traced) : Int × Traced :=
  let (loc, t) := itoa.loop text i 11 t
  if loc = 11 then itoa.put text loc t 48 else (loc, t)

/-- The address that is returned, and the memory. -/
def itoa (text : Nat) (t : Traced) (i : Int) : Nat × Traced :=
  let t := t.store (Word.ofInt (text + 11)) 0
  let (neg, i) := if i ≥ 0 then (false, -i) else (true, i)
  let (loc, t) := itoa.digits text i t
  let (loc, t) := if neg then itoa.put text loc t 45 else (loc, t)
  (Word.ofInt (text + loc), t)

section

variable {text n k : Nat} {t t' : Traced} {l : List UInt8} {c : UInt8}

/-- The string `l` is in the buffer from `k` on, and nothing else was written. -/
structure Filled (text k : Nat) (l : List UInt8) (t : Traced) : Prop where
  string : CString t.mem (text + k) l
  within : t.Within text (text + 12)

/-- A character is put in front of the string. -/
theorem Filled.put (h : Filled text (k + 1) l t) (hk : k < 12) (hc : c ≠ 0) (htext : text + 12 ≤ 2 ^ 32) :
    ∃ t', itoa.put text (k + 1 : Nat) t c = ((k : Int), t') ∧ Filled text k (c :: l) t' := by
  have haddr : Word.ofInt ((text : Int) + ((k + 1 : Nat) - 1)) = text + k := by
    have : (text : Int) + ((k + 1 : Nat) - 1) = ((text + k : Nat) : Int) := by omega
    rw [this]
    exact Word.ofInt_natCast (by omega)
  have hloc : ((k + 1 : Nat) : Int) - 1 = k := by omega
  refine ⟨t.store (text + k) c, ?_, ⟨⟨?_, hc, ?_⟩, ?_⟩⟩
  · unfold itoa.put
    rw [haddr, hloc]
  · exact Function.update_self _ _ _
  · refine h.string.congr fun x hx _ => ?_
    exact Function.update_of_ne (by omega) _ _
  · rw [Traced.within_store]
    exact ⟨by omega, h.within⟩

/-- A digit of a number that is not positive. -/
theorem itoa_digit (n : Nat) : UInt8.ofInt (48 - (-(n : Int)).tmod 10) = Decimal.digit (n % 10) := by
  have hmod : (-(n : Int)).tmod 10 = -((n % 10 : Nat) : Int) := by
    rw [Int.neg_tmod]
    rfl
  have hbyte : (48 - -((n % 10 : Nat) : Int)) % 2 ^ 8 = ((48 + n % 10 : Nat) : Int) := by omega
  unfold UInt8.ofInt Decimal.digit
  rw [hmod, hbyte, Int.toNat_natCast]

/-- The loop puts the digits in front, for each of which there is room. -/
theorem itoa_loop (htext : text + 12 ≤ 2 ^ 32) (n : Nat) : ∀ {k : Nat} {l : List UInt8} {t : Traced},
    Filled text k l t → (Decimal.digits n).length ≤ k → k ≤ 12 →
    ∃ (t' : Traced) (j : Nat), itoa.loop text (-(n : Int)) k t = ((j : Int), t') ∧
      j + (Decimal.digits n).length = k ∧ Filled text j (Decimal.digits n ++ l) t' := by
  induction n using Nat.strong_induction_on with
  | _ n ih =>
    intro k l t h hroom hk
    unfold itoa.loop
    by_cases hn : n = 0
    · subst hn
      exact ⟨t, k, if_pos rfl, rfl, h⟩
    · have hne : -(n : Int) ≠ 0 := by omega
      have hdiv : (-(n : Int)).tdiv 10 = -((n / 10 : Nat) : Int) := by
        rw [Int.neg_tdiv]
        rfl
      rw [Decimal.digits_step hn, List.length_append, List.length_singleton] at hroom
      obtain ⟨k, rfl⟩ : ∃ j, k = j + 1 := ⟨k - 1, by omega⟩
      have hzero : Decimal.digit (n % 10) ≠ 0 := fun h0 => by
        have := congrArg UInt8.toNat h0
        rw [Decimal.digit_toNat (by omega)] at this
        exact absurd this (by simp)
      obtain ⟨t₁, hput, hfilled⟩ := h.put (by omega) hzero htext
      obtain ⟨t₂, j, hloop, hj, hrest⟩ := ih (n / 10) (by omega) hfilled (by omega) (by omega)
      rw [if_neg hne, itoa_digit, hput, hdiv]
      refine ⟨t₂, j, hloop, ?_, ?_⟩
      · rw [Decimal.digits_step hn, List.length_append, List.length_singleton]
        omega
      · rw [Decimal.digits_step hn, List.append_assoc]
        exact hrest

/-- What the sign does not change: the digits of an `int`, or a single zero. -/
theorem itoa_unsigned (htext : text + 12 ≤ 2 ^ 32) (h : Filled text 11 [] t) (hn : n ≤ 2 ^ 31) :
    ∃ (t' : Traced) (j : Nat), itoa.digits text (-(n : Int)) t = (((j + 1 : Nat) : Int), t') ∧
      j < 11 ∧ Filled text (j + 1) (Decimal.unsigned n) t' := by
  have hlen : (Decimal.digits n).length ≤ 10 := Decimal.digits_length_le (by omega)
  obtain ⟨t₁, j, hloop, hj, hfilled⟩ := itoa_loop htext n h (by omega) (by omega)
  have hloop' : itoa.loop text (-(n : Int)) 11 t = ((j : Int), t₁) := hloop
  rw [List.append_nil] at hfilled
  unfold itoa.digits Decimal.unsigned
  rw [hloop']
  dsimp only
  by_cases hn0 : n = 0
  · subst hn0
    obtain rfl : j = 11 := hj
    obtain ⟨t₂, hput, hzero⟩ := hfilled.put (k := 10) (c := 48) (by decide) (by decide) htext
    exact ⟨t₂, 9, hput, by decide, hzero⟩
  · have hpos : 0 < (Decimal.digits n).length := List.length_pos_iff.2 (Decimal.digits_ne_nil hn0)
    obtain ⟨j, rfl⟩ : ∃ i, j = i + 1 := ⟨j - 1, by omega⟩
    rw [if_neg (by omega), if_neg hn0]
    exact ⟨t₁, j, rfl, by omega, hfilled⟩

theorem itoa_run (htext : text + 12 ≤ 2 ^ 32) (m : Mem) {i : Int} (hlo : -2 ^ 31 ≤ i) (hhi : i < 2 ^ 31) :
    ∃ (t' : Traced) (j : Nat), itoa text ⟨m, []⟩ i = (text + j, t') ∧ Filled text j (Decimal.text i) t' := by
  have haddr : ∀ {k : Nat}, k < 12 → Word.ofInt ((text : Int) + k) = text + k := fun hk => by
    rw [← Int.natCast_add]
    exact Word.ofInt_natCast (by omega)
  have hempty : Filled text 11 [] (Traced.store ⟨m, []⟩ (Word.ofInt (text + 11)) 0) := by
    have hlast : Word.ofInt ((text : Int) + 11) = text + 11 := haddr (show 11 < 12 by decide)
    rw [hlast]
    refine ⟨Function.update_self _ _ _, ?_⟩
    rw [Traced.within_store]
    exact ⟨by omega, Traced.within_nil m _ _⟩
  -- the loop works on the number that is not positive
  obtain ⟨t₁, j, hdigits, hj, hfilled⟩ := itoa_unsigned htext hempty (show i.natAbs ≤ 2 ^ 31 by omega)
  unfold itoa Decimal.text
  by_cases h : i ≥ 0
  · have hneg : -i = -(i.natAbs : Int) := by omega
    have hnot : ¬ i < 0 := by omega
    refine ⟨t₁, j + 1, ?_, ?_⟩
    · rw [if_pos h]
      dsimp only
      rw [hneg, hdigits]
      dsimp only
      rw [if_neg Bool.false_ne_true]
      dsimp only
      rw [haddr (by omega)]
    · rw [if_neg hnot]
      exact hfilled
  · have hneg : i = -(i.natAbs : Int) := by omega
    obtain ⟨t₂, hput, hsigned⟩ := hfilled.put (c := 45) (by omega) (by decide) htext
    refine ⟨t₂, j, ?_, ?_⟩
    · rw [if_neg h]
      dsimp only
      rw [← hneg] at hdigits
      rw [hdigits]
      dsimp only
      rw [if_pos rfl, hput]
      dsimp only
      rw [haddr (by omega)]
    · rw [if_pos (by omega)]
      exact hsigned

/-- **Decimal conversion is exact.** -/
theorem itoa_exact (htext : text + 12 ≤ 2 ^ 32) (m : Mem) {i : Int} (hlo : -2 ^ 31 ≤ i)
    (hhi : i < 2 ^ 31) :
    CString (itoa text ⟨m, []⟩ i).2.mem (itoa text ⟨m, []⟩ i).1 (Decimal.text i) ∧
      Decimal.Canonical (Decimal.text i) i ∧ Decimal.value (Decimal.text i) = i ∧
      (itoa text ⟨m, []⟩ i).2.Within text (text + 12) := by
  obtain ⟨t', j, hrun, hfilled⟩ := itoa_run htext m hlo hhi
  have hcanonical := Decimal.text_canonical i
  rw [hrun]
  exact ⟨hfilled.string, hcanonical, hcanonical.value, hfilled.within⟩

end

/-- The most negative number. -/
theorem itoa_exact_least :
    CString (itoa 0x1000 ⟨fun _ => 0, []⟩ (-2 ^ 31)).2.mem (itoa 0x1000 ⟨fun _ => 0, []⟩ (-2 ^ 31)).1
        (Decimal.text (-2 ^ 31)) ∧
      Decimal.Canonical (Decimal.text (-2 ^ 31)) (-2 ^ 31) ∧
      Decimal.value (Decimal.text (-2 ^ 31)) = -2 ^ 31 ∧
      (itoa 0x1000 ⟨fun _ => 0, []⟩ (-2 ^ 31)).2.Within 0x1000 (0x1000 + 12) :=
  itoa_exact (by decide) _ (by decide) (by decide)

end Pandora
