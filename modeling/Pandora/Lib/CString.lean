import Mathlib.Data.List.TakeWhile
import Pandora.Lib.ByteMem

/-!
# Strings with a terminator

`CString m p l`: the characters `l`, none of them zero, stand at `p`, and a zero behind them. A
memory has at most one string at an address (`CString.unique`). `copyString` is a bounded copy from
one memory to another, which cuts the string off (`copyString_spec`).

`words d l` are the maximal runs in `l` of characters that are no delimiters. They are taken off
from the front: delimiters are skipped (`words_dropWhile`), then the characters up to the next
delimiter are a word (`words_cons`).
-/

namespace ByteMem

/-- The string `l` at `p`. -/
def CString (m : Mem) : Nat → List UInt8 → Prop
  | p, [] => m p = 0
  | p, c :: l => m p = c ∧ c ≠ 0 ∧ CString m (p + 1) l

section

variable {m m' : Mem} {p : Nat} {c : UInt8} {l l' : List UInt8}

@[simp] theorem cstring_nil : CString m p [] ↔ m p = 0 := Iff.rfl

@[simp] theorem cstring_cons :
    CString m p (c :: l) ↔ m p = c ∧ c ≠ 0 ∧ CString m (p + 1) l := Iff.rfl

/-- A string is what its bytes are. -/
theorem CString.congr (h : CString m p l) (he : ∀ x, p ≤ x → x ≤ p + l.length → m' x = m x) :
    CString m' p l := by
  induction l generalizing p with
  | nil => exact (he p (Nat.le_refl p) (Nat.le_refl _)).trans h
  | cons c l ih =>
    refine ⟨(he p (Nat.le_refl p) (by omega)).trans h.1, h.2.1, ih h.2.2 fun x hx hx' => ?_⟩
    exact he x (by omega) (by rw [List.length_cons]; omega)

/-- Characters and a terminator are a string. -/
theorem CString.of_bytes (h0 : (0 : UInt8) ∉ l) (h : ∀ i, (hi : i < l.length) → m (p + i) = l[i])
    (hend : m (p + l.length) = 0) : CString m p l := by
  induction l generalizing p with
  | nil => exact hend
  | cons c l ih =>
    refine ⟨h 0 (Nat.zero_lt_succ _), fun hc => h0 (by simp [hc]), ?_⟩
    refine ih (fun hm => h0 (.tail _ hm)) (fun i hi => ?_) ?_
    · rw [Nat.add_assoc, Nat.add_comm 1 i]
      exact h (i + 1) (Nat.succ_lt_succ hi)
    · rw [Nat.add_assoc, Nat.add_comm 1 l.length]
      exact hend

/-- The string behind its first characters. -/
theorem CString.drop (h : CString m p (l ++ l')) : CString m (p + l.length) l' := by
  induction l generalizing p with
  | nil => exact h
  | cons c l ih =>
    rw [List.length_cons, Nat.add_comm l.length 1, ← Nat.add_assoc]
    exact ih h.2.2

/-- The first characters, where the terminator is put behind them. -/
theorem CString.cut (h : CString m p (l ++ l')) :
    CString (Function.update m (p + l.length) 0) p l := by
  induction l generalizing p with
  | nil => exact Function.update_self _ _ _
  | cons c l ih =>
    refine ⟨?_, h.2.1, ?_⟩
    · rw [Function.update_of_ne (by rw [List.length_cons]; omega)]
      exact h.1
    · rw [List.length_cons, Nat.add_comm l.length 1, ← Nat.add_assoc]
      exact ih h.2.2

/-- The terminator is the first zero. -/
theorem CString.zero_iff (h : CString m p l) {i : Nat} (hi : i ≤ l.length) :
    m (p + i) = 0 ↔ i = l.length := by
  induction l generalizing p i with
  | nil =>
    obtain rfl : i = 0 := Nat.le_zero.1 hi
    exact iff_of_true h rfl
  | cons c l ih =>
    cases i with
    | zero => exact iff_of_false (fun hz => h.2.1 (h.1.symm.trans hz)) (by simp)
    | succ i =>
      have := ih h.2.2 (Nat.le_of_succ_le_succ hi)
      rw [Nat.add_assoc, Nat.add_comm 1] at this
      rw [this, List.length_cons, Nat.add_right_cancel_iff]

theorem CString.ne_zero (h : CString m p l) : ∀ c ∈ l, c ≠ 0 := by
  induction l generalizing p with
  | nil => simp
  | cons c l ih =>
    intro d hd
    rcases List.mem_cons.1 hd with rfl | hd
    · exact h.2.1
    · exact ih h.2.2 d hd

/-- The string of a memory at an address. -/
theorem CString.unique (h : CString m p l) (h' : CString m p l') : l = l' := by
  induction l generalizing p l' with
  | nil =>
    cases l' with
    | nil => rfl
    | cons c l' => exact absurd (h'.1.symm.trans h) h'.2.1
  | cons c l ih =>
    cases l' with
    | nil => exact absurd (h.1.symm.trans h') h.2.1
    | cons d l' =>
      obtain rfl : c = d := h.1.symm.trans h'.1
      rw [ih h.2.2 h'.2.2]

end

/-! ## Copies -/

/-- Up to `n` more characters of the string at `src` in `u` go to `dest`, and a terminator; the first
`i` have been copied. Addresses wrap at `2 ^ 32`. -/
def copyString (u : Mem) (dest src : Nat) : (n i : Nat) → Mem → Mem
  | 0, i, m => Function.update m (Word.add dest i) 0
  | n + 1, i, m =>
    if u (Word.add src i) = 0 then Function.update m (Word.add dest i) 0
    else copyString u dest src n (i + 1)
      (Function.update m (Word.add dest i) (u (Word.add src i)))

/-- The copy is the string, cut off behind `n` characters. -/
theorem copyString_spec {u m : Mem} {dest src n i : Nat} {l : List UInt8}
    (h : CString u (src + i) l) (hsrc : src + i + l.length < 2 ^ 32) (hdest : dest + i + n < 2 ^ 32) :
    CString (copyString u dest src n i m) (dest + i) (l.take n) ∧
      ∀ x, (x < dest + i ∨ dest + i + n < x) → copyString u dest src n i m x = m x := by
  induction n generalizing i m l with
  | zero =>
    unfold copyString
    rw [Word.add_of_lt (by omega)]
    exact ⟨Function.update_self _ _ _, fun x hx => Function.update_of_ne (by omega) _ _⟩
  | succ n ih =>
    unfold copyString
    rw [Word.add_of_lt (a := dest) (by omega), Word.add_of_lt (a := src) (by omega)]
    cases l with
    | nil =>
      rw [if_pos (cstring_nil.1 h)]
      exact ⟨Function.update_self _ _ _, fun x hx => Function.update_of_ne (by omega) _ _⟩
    | cons c l =>
      obtain ⟨hc, hc0, hrest⟩ := h
      rw [List.length_cons] at hsrc
      obtain ⟨hstr, hframe⟩ := ih (m := Function.update m (dest + i) c) (i := i + 1) (l := l) hrest
        (by omega) (by omega)
      rw [hc, if_neg hc0]
      refine ⟨⟨?_, hc0, hstr⟩, fun x hx => ?_⟩
      · rw [hframe _ (by omega), Function.update_self]
      · rw [hframe x (by omega), Function.update_of_ne (by omega)]

/-! ## Words -/

/-- The maximal runs of characters that are no delimiters. -/
def words (d : UInt8 → Bool) (l : List UInt8) : List (List UInt8) :=
  (l.splitOnP d).filter fun w => w ≠ []

section

variable {d : UInt8 → Bool} {l : List UInt8} {c : UInt8}

/-- Dropping stops at a character that does not belong. -/
theorem head_of_dropWhile {r : List UInt8} (h : l.dropWhile d = c :: r) : d c = false := by
  have := List.head_dropWhile_not d (l := l) (by rw [h]; exact List.cons_ne_nil c r)
  simpa [h] using this

@[simp] theorem words_nil : words d [] = [] := rfl

theorem words_skip (hc : d c = true) : words d (c :: l) = words d l := by
  unfold words
  rw [List.splitOnP_cons_eq_if_modifyHead, if_pos hc]
  rfl

theorem words_dropWhile (d : UInt8 → Bool) (l : List UInt8) :
    words d (l.dropWhile d) = words d l := by
  induction l with
  | nil => rfl
  | cons c l ih =>
    by_cases hc : d c = true
    · rw [List.dropWhile_cons_of_pos hc, ih, words_skip hc]
    · rw [List.dropWhile_cons_of_neg hc]

/-- Where the first character is no delimiter, a word begins with it. -/
theorem words_cons (hc : d c = false) :
    words d (c :: l) = (c :: l.takeWhile (!d ·)) :: words d ((l.dropWhile (!d ·)).drop 1) := by
  have hword : ∀ x ∈ c :: l.takeWhile (!d ·), d x = false := fun x hx => by
    rcases List.mem_cons.1 hx with rfl | hx
    · exact hc
    · simpa using List.mem_takeWhile_imp hx
  have hl : c :: l = (c :: l.takeWhile (!d ·)) ++ l.dropWhile (!d ·) := by
    rw [List.cons_append, List.takeWhile_append_dropWhile]
  cases hr : l.dropWhile (!d ·) with
  | nil =>
    rw [hr, List.append_nil] at hl
    unfold words
    rw [hl, List.splitOnP_eq_singleton hword]
    rfl
  | cons s r =>
    have hs : d s = true := by simpa using head_of_dropWhile hr
    rw [hr] at hl
    unfold words
    rw [hl, List.splitOnP_append_cons_of_forall_mem hword s hs]
    rfl

theorem words_length_le (d : UInt8 → Bool) (l : List UInt8) : (words d l).length ≤ l.length := by
  suffices h : ∀ n, ∀ l : List UInt8, l.length ≤ n → (words d l).length ≤ l.length from
    h l.length l (Nat.le_refl _)
  intro n
  induction n with
  | zero =>
    intro l hl
    rw [List.length_eq_zero_iff.1 (Nat.le_zero.1 hl)]
    exact Nat.le_refl _
  | succ n ih =>
    intro l hl
    cases l with
    | nil => exact Nat.le_refl _
    | cons c l =>
      rw [List.length_cons] at hl ⊢
      by_cases hc : d c = true
      · rw [words_skip hc]
        exact Nat.le_succ_of_le (ih l (by omega))
      · have hdrop : ((l.dropWhile (!d ·)).drop 1).length ≤ l.length := by
          rw [List.length_drop]
          exact (Nat.sub_le _ _).trans (List.dropWhile_sublist _).length_le
        rw [words_cons (by simpa using hc), List.length_cons]
        have := ih _ (hdrop.trans (by omega))
        omega

end

end ByteMem
