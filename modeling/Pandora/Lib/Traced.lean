import Pandora.Lib.CString

/-!
# Memories that note where they are written

`Traced` is a memory with the addresses that were written so far, so that "nothing is written outside"
is a statement about the writes and not about what they change. `Within lo hi` says it, and one lemma
per operation carries it on.

`copyBounded` and `copyUntil` copy a string, the one up to a number of characters and the other up to its
NUL. The string may lie where it is copied to: the copy ends at a NUL that it has not written over
(`Stops`), and `copy_loop_spec` says what it writes until then.
-/

namespace ByteMem

/-- A memory, and the addresses written so far, the latest first. -/
structure Traced where
  mem : Mem
  written : List Nat := []

namespace Traced

def store (t : Traced) (a : Nat) (v : UInt8) : Traced where
  mem := Function.update t.mem a v
  written := a :: t.written

/-- Every write so far was to an address from `lo` on and below `hi`. -/
def Within (t : Traced) (lo hi : Nat) : Prop := ∀ a ∈ t.written, lo ≤ a ∧ a < hi

variable {t : Traced} {a lo hi : Nat} {v : UInt8}

@[simp] theorem store_mem (t : Traced) (a : Nat) (v : UInt8) :
    (t.store a v).mem = Function.update t.mem a v := rfl

@[simp] theorem store_written (t : Traced) (a : Nat) (v : UInt8) :
    (t.store a v).written = a :: t.written := rfl

theorem within_nil (m : Mem) (lo hi : Nat) : Within ⟨m, []⟩ lo hi := by simp [Within]

@[simp] theorem within_store : (t.store a v).Within lo hi ↔ (lo ≤ a ∧ a < hi) ∧ t.Within lo hi := by
  simp [Within]

/-- The bytes `l` one after another. -/
def storeAll : Traced → Nat → List UInt8 → Traced
  | t, _, [] => t
  | t, a, v :: l => storeAll (t.store a v) (a + 1) l

theorem storeAll_within {l : List UInt8} (hlo : lo ≤ a) (hhi : a + l.length ≤ hi) :
    (t.storeAll a l).Within lo hi ↔ t.Within lo hi := by
  induction l generalizing t a with
  | nil => exact Iff.rfl
  | cons v l ih =>
    rw [List.length_cons] at hhi
    unfold storeAll
    rw [ih (by omega) (by omega), within_store]
    exact and_iff_right ⟨hlo, by omega⟩

theorem storeAll_mem {l : List UInt8} {x : Nat} (hx : x < a ∨ a + l.length ≤ x) :
    (t.storeAll a l).mem x = t.mem x := by
  induction l generalizing t a with
  | nil => rfl
  | cons v l ih =>
    rw [List.length_cons] at hx
    unfold storeAll
    rw [ih (by omega), store_mem, Function.update_of_ne (by omega)]

/-! ## Copies -/

/-- Up to `n` more characters from `src` go to `dest`, and a NUL; the first `i` have been copied. -/
def copyBounded (dest src : Nat) : (n i : Nat) → Traced → Traced
  | 0, i, t => t.store (Word.add dest i) 0
  | n + 1, i, t =>
    if t.mem (Word.add src i) = 0 then t.store (Word.add dest i) 0
    else copyBounded dest src n (i + 1) (t.store (Word.add dest i) (t.mem (Word.add src i)))

/-- The characters up to the NUL go to `dest`, and the NUL; `none` where there is none among the next
`n` characters. -/
def copyUntil (dest src : Nat) : (n i : Nat) → Traced → Option Traced
  | 0, _, _ => none
  | n + 1, i, t =>
    if t.mem (Word.add src i) = 0 then some (t.store (Word.add dest i) 0)
    else copyUntil dest src n (i + 1) (t.store (Word.add dest i) (t.mem (Word.add src i)))

/-- Character `n` from `src` is a NUL, and no earlier character is copied there. -/
def Stops (u : Mem) (dest src n : Nat) : Prop :=
  u (Word.add src n) = 0 ∧ ∀ k < n, Word.add src n ≠ Word.add dest k

/-- What a copy has done that ended with character `n`, from character `i` on. -/
structure CopiedTo (t t' : Traced) (dest i n : Nat) : Prop where
  written : ∀ lo hi, t'.Within lo hi ↔
    t.Within lo hi ∧ ∀ k, i ≤ k → k ≤ n → lo ≤ Word.add dest k ∧ Word.add dest k < hi
  nul : t'.mem (Word.add dest n) = 0

theorem copiedTo_nul (t : Traced) (dest i : Nat) :
    CopiedTo t (t.store (Word.add dest i) 0) dest i i := by
  refine ⟨fun lo hi => ?_, Function.update_self _ _ _⟩
  rw [within_store, and_comm]
  refine and_congr_right fun _ => ⟨fun h k hk hk' => ?_, fun h => h i (Nat.le_refl i) (Nat.le_refl i)⟩
  rwa [Nat.le_antisymm hk' hk]

theorem CopiedTo.cons {t' : Traced} {dest i n : Nat} (hn : i ≤ n)
    (h : CopiedTo (t.store (Word.add dest i) v) t' dest (i + 1) n) : CopiedTo t t' dest i n := by
  refine ⟨fun lo hi => ?_, h.nul⟩
  rw [h.written, within_store]
  constructor
  · rintro ⟨⟨hi0, ht⟩, hrest⟩
    refine ⟨ht, fun k hk hk' => ?_⟩
    rcases Nat.lt_or_eq_of_le hk with hlt | rfl
    · exact hrest k hlt hk'
    · exact hi0
  · rintro ⟨ht, hall⟩
    exact ⟨⟨hall i (Nat.le_refl i) hn, ht⟩, fun k hk => hall k (by omega)⟩

/-- The copies from character `i` on: they end with the first NUL that they meet, the bounded one with
character `i + n` if there is none before. -/
theorem copy_loop_spec (u : Mem) (dest src : Nat) : ∀ (n i : Nat) (t : Traced), i + n < 2 ^ 32 →
    (∀ x, (∀ k < i, x ≠ Word.add dest k) → t.mem x = u x) →
    (∀ k < i, t.mem (Word.add dest k) ≠ 0) →
    ∃ len, i ≤ len ∧ len ≤ i + n ∧ (∀ j, i ≤ j → j < len → ¬ Stops u dest src j) ∧
      CopiedTo t (copyBounded dest src n i t) dest i len ∧
      (len < i + n → Stops u dest src len ∧
        copyUntil dest src n i t = some (copyBounded dest src n i t))
  | 0, i, t, _, _, _ => by
    refine ⟨i, Nat.le_refl i, Nat.le_refl i, fun j hj hj' => by omega, copiedTo_nul t dest i, fun h => ?_⟩
    exact absurd h (Nat.lt_irrefl i)
  | n + 1, i, t, hlt, hframe, hchars => by
    unfold copyBounded copyUntil
    by_cases hz : t.mem (Word.add src i) = 0
    · -- the character that is read is no earlier character of the copy
      have hstop : Stops u dest src i := by
        have hne : ∀ k < i, Word.add src i ≠ Word.add dest k := fun k hk he =>
          hchars k hk (he ▸ hz)
        exact ⟨(hframe _ hne).symm.trans hz, hne⟩
      rw [if_pos hz, if_pos hz]
      exact ⟨i, Nat.le_refl i, Nat.le_add_right i _, fun j hj hj' => by omega, copiedTo_nul t dest i,
        fun _ => ⟨hstop, rfl⟩⟩
    · have hno : ¬ Stops u dest src i := fun hs => hz ((hframe _ hs.2).trans hs.1)
      have hinj : ∀ k < i, Word.add dest k ≠ Word.add dest i := fun k hk => by
        rw [Word.add_eq, Word.add_eq]
        omega
      obtain ⟨len, hle, hlen, hfirst, hcopied, hends⟩ := copy_loop_spec u dest src n (i + 1)
        (t.store (Word.add dest i) (t.mem (Word.add src i))) (by omega)
        (fun x hx => by
          rw [store_mem, Function.update_of_ne (hx i (Nat.lt_succ_self i))]
          exact hframe x fun k hk => hx k (by omega))
        (fun k hk => by
          rw [store_mem]
          rcases Nat.lt_or_eq_of_le (Nat.le_of_lt_succ hk) with hlt | rfl
          · rw [Function.update_of_ne (hinj k hlt)]
            exact hchars k hlt
          · rwa [Function.update_self])
      rw [if_neg hz, if_neg hz]
      refine ⟨len, by omega, by omega, fun j hj hj' => ?_, hcopied.cons (by omega), fun h => ?_⟩
      · rcases Nat.lt_or_eq_of_le hj with hlt | rfl
        · exact hfirst j hlt hj'
        · exact hno
      · exact hends (by omega)

/-- The copy ends with a NUL, and not behind a place where it meets one. -/
theorem copyBounded_ends (t : Traced) (dest src : Nat) {n : Nat} (hn : n < 2 ^ 32) :
    ∃ len ≤ n, (t.copyBounded dest src n 0).mem (Word.add dest len) = 0 ∧
      ∀ k, Stops t.mem dest src k → len ≤ k := by
  obtain ⟨len, -, hlen, hfirst, hcopied, -⟩ := copy_loop_spec t.mem dest src n 0 t
    (by omega) (fun _ _ => rfl) (fun k hk => absurd hk (Nat.not_lt_zero k))
  refine ⟨len, by omega, hcopied.nul, fun k hk => Nat.le_of_not_lt fun hlt => ?_⟩
  exact hfirst k (Nat.zero_le k) hlt hk

/-- A copy writes from `dest` on, no further than it may read. -/
theorem copyUntil_mem {dest src x : Nat} {t' : Traced} : ∀ (n i : Nat) (t : Traced),
    dest + i + n ≤ 2 ^ 32 → t.copyUntil dest src n i = some t' → (x < dest ∨ dest + i + n ≤ x) →
    t'.mem x = t.mem x
  | 0, _, _, _, h, _ => by cases h
  | n + 1, i, t, hlt, h, hx => by
    have hne : x ≠ Word.add dest i := by
      rw [Word.add_of_lt (by omega)]
      omega
    unfold copyUntil at h
    split at h
    · cases h
      exact Function.update_of_ne hne _ _
    · rw [copyUntil_mem n (i + 1) _ (by omega) h (by omega), store_mem, Function.update_of_ne hne]

/-- A bounded copy stays below `dest + size` if and only if it meets a NUL before. -/
theorem copyBounded_within_iff {dest src n size : Nat} (hn : size ≤ n)
    (hdest : dest + n < 2 ^ 32) (hlo : lo ≤ dest) (hin : t.Within lo (dest + size)) :
    (t.copyBounded dest src n 0).Within lo (dest + size) ↔ ∃ k < size, Stops t.mem dest src k := by
  obtain ⟨len, -, hlen, hfirst, hcopied, hends⟩ := copy_loop_spec t.mem dest src n 0 t
    (by omega) (fun _ _ => rfl) (fun k hk => absurd hk (Nat.not_lt_zero k))
  rw [hcopied.written]
  constructor
  · rintro ⟨-, hall⟩
    have hlast := (hall len (Nat.zero_le _) (Nat.le_refl _)).2
    rw [Word.add_of_lt (by omega)] at hlast
    exact ⟨len, by omega, (hends (by omega)).1⟩
  · rintro ⟨k, hk, hstop⟩
    have hle : len ≤ k := Nat.le_of_not_lt fun hlt => hfirst k (Nat.zero_le k) hlt hstop
    refine ⟨hin, fun j _ hj => ?_⟩
    rw [Word.add_of_lt (by omega)]
    omega

end Traced

end ByteMem
