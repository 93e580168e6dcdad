import Mathlib.Tactic.Common
import Pandora.Heap.Search

/-!
# Chains in the block table

`IsChain entries total s n`: an allocation of `n` blocks from block `s` on, as the marking loop
writes it and the freeing loop follows it. Marking writes exactly a chain (`markBlocksTaken_entries`)
and freeing from the start of a chain clears exactly its entries (`markBlocksFree_chain`); a chain
that runs over the end of the table is cut there by the freeing loop, so `IsChain` asks nothing of
the entries from `total` on.
-/

namespace Pandora

/-- The `k`-th entry of a chain of `n` blocks. -/
def chainEntry (n k : Nat) : UInt8 :=
  let entry := if k = 0 then entryTaken ||| isFirst else entryTaken
  if k + 1 < n then entry ||| hasNext else entry

/-- The entries from `s` on are a chain of `n` blocks (module doc). -/
structure IsChain (entries : Nat → UInt8) (total s n : Nat) : Prop where
  pos : 1 ≤ n
  lt : s < total
  entry : ∀ k < n, s + k < total → entries (s + k) = chainEntry n k

theorem chainEntry_not_free (n k : Nat) : ¬ Free (chainEntry n k) := by
  unfold chainEntry
  split <;> split <;> decide

theorem chainEntry_hasNext {n k : Nat} : chainEntry n k &&& hasNext = 0 ↔ n ≤ k + 1 := by
  unfold chainEntry
  by_cases h : k + 1 < n
  · simp only [if_pos h]
    refine iff_of_false ?_ (by omega)
    split <;> decide
  · simp only [if_neg h]
    refine iff_of_true ?_ (by omega)
    split <;> decide

theorem chainEntry_isFirst {n k : Nat} : chainEntry n k &&& isFirst = 0 ↔ k ≠ 0 := by
  unfold chainEntry
  by_cases h : k = 0
  · simp only [if_pos h]
    refine iff_of_false ?_ (by omega)
    split <;> decide
  · simp only [if_neg h]
    refine iff_of_true ?_ (by omega)
    split <;> decide

theorem IsChain.not_free {entries : Nat → UInt8} {total s n i : Nat}
    (h : IsChain entries total s n) (hi : s ≤ i) (hin : i < s + n) (hit : i < total) :
    ¬ Free (entries i) := by
  have := h.entry (i - s) (by omega) (by omega)
  rw [show s + (i - s) = i by omega] at this
  rw [this]
  exact chainEntry_not_free n (i - s)

/-- A chain inside the table ends at the first entry without `HAS_NEXT`. -/
theorem IsChain.length_le {entries : Nat → UInt8} {total s n n' : Nat}
    (h : IsChain entries total s n) (h' : IsChain entries total s n') (hs : s + n ≤ total) :
    n' ≤ n := by
  refine Nat.le_of_not_lt fun hlt => ?_
  have hp := h.pos
  have h1 := h.entry (n - 1) (by omega) (by omega)
  have h2 := h'.entry (n - 1) (by omega) (by omega)
  have h3 := chainEntry_hasNext (n := n) (k := n - 1)
  have h4 := chainEntry_hasNext (n := n') (k := n - 1)
  rw [← h1] at h3
  rw [← h2] at h4
  have := h4.1 (h3.2 (by omega))
  omega

/-- Chains with different first blocks do not overlap: only a first entry has `IS_FIRST`. -/
theorem IsChain.disjoint {entries : Nat → UInt8} {total s n s' n' : Nat}
    (h : IsChain entries total s n) (h' : IsChain entries total s' n') (hne : s ≠ s') :
    s + n ≤ s' ∨ s' + n' ≤ s := by
  have aux : ∀ {s n s' n' : Nat}, IsChain entries total s n → IsChain entries total s' n' →
      s < s' → s + n ≤ s' := by
    intro s n s' n' h h' hlt
    rcases Nat.lt_or_ge s' (s + n) with hin | hin
    · have hl := h'.lt
      have h1 := h.entry (s' - s) (by omega) (by omega)
      rw [show s + (s' - s) = s' by omega] at h1
      have h2 := h'.entry 0 h'.pos (by omega)
      have h3 := chainEntry_isFirst (n := n) (k := s' - s)
      have h4 := chainEntry_isFirst (n := n') (k := 0)
      rw [← h1] at h3
      rw [← h2] at h4
      exact absurd (h4.1 (h3.2 (by omega))) (by simp)
    · exact hin
  rcases Nat.lt_or_ge s s' with hlt | hge
  · exact .inl (aux h h' hlt)
  · exact .inr (aux h' h (by omega))

/-- A chain is a chain of every table that agrees with it on its blocks. -/
theorem IsChain.congr {entries entries' : Nat → UInt8} {total s n : Nat}
    (h : IsChain entries total s n)
    (he : ∀ i, s ≤ i → i < s + n → i < total → entries' i = entries i) :
    IsChain entries' total s n where
  pos := h.pos
  lt := h.lt
  entry := fun k hk ht => by rw [he _ (by omega) (by omega) ht, h.entry k hk ht]

/-! ## Marking -/

@[simp] theorem HeapTable.set_total (t : HeapTable) (i : Nat) (e : UInt8) :
    (t.set i e).total = t.total := rfl

@[simp] theorem HeapTable.set_written (t : HeapTable) (i : Nat) (e : UInt8) :
    (t.set i e).written = i :: t.written := rfl

theorem HeapTable.set_entries (t : HeapTable) (i : Nat) (e : UInt8) (j : Nat) :
    (t.set i e).entries j = if j = i then e else t.entries j := by
  simp [HeapTable.set, Function.update_apply]

theorem markBlocksTaken_loop_total (endBlock : Int) :
    ∀ (m i : Nat) (entry : UInt8) (t : HeapTable),
      (heapMarkBlocksTaken.loop endBlock m i entry t).total = t.total
  | 0, _, _, _ => rfl
  | m + 1, i, entry, t => by
    simp only [heapMarkBlocksTaken.loop]
    rw [markBlocksTaken_loop_total endBlock m, HeapTable.set_total]

theorem markBlocksTaken_loop_written (endBlock : Int) {j : Nat} :
    ∀ (m i : Nat) (entry : UInt8) (t : HeapTable),
      j ∈ (heapMarkBlocksTaken.loop endBlock m i entry t).written ↔
        (i ≤ j ∧ j < i + m) ∨ j ∈ t.written
  | 0, i, _, _ => by
    simp only [heapMarkBlocksTaken.loop]
    constructor
    · exact .inr
    · rintro (h | h)
      · omega
      · exact h
  | m + 1, i, entry, t => by
    simp only [heapMarkBlocksTaken.loop]
    rw [markBlocksTaken_loop_written endBlock m, HeapTable.set_written, List.mem_cons]
    constructor
    · rintro (h | rfl | h)
      · exact .inl (by omega)
      · exact .inl (by omega)
      · exact .inr h
    · rintro (h | h)
      · rcases Nat.eq_or_lt_of_le h.1 with rfl | hlt
        · exact .inr (.inl rfl)
        · exact .inl (by omega)
      · exact .inr (.inr h)

/-- The entry of the next block, as the loop prepares it one step ahead. -/
theorem next_chainEntry {s n i : Nat} (hs : s ≤ i) (hi : i + 1 < s + n) :
    (if (i : Int) ≠ ((s + n : Nat) : Int) - 1 - 1 then entryTaken ||| hasNext else entryTaken) =
      chainEntry n (i + 1 - s) := by
  unfold chainEntry
  rw [if_neg (show ¬ i + 1 - s = 0 by omega)]
  by_cases h : i + 1 - s + 1 < n
  · rw [if_pos h, if_pos (by omega)]
  · rw [if_neg h, if_neg (by omega)]

theorem markBlocksTaken_loop_entries {s n : Nat} {j : Nat} :
    ∀ (m i : Nat) (entry : UInt8) (t : HeapTable), s ≤ i → i + m = s + n →
      (0 < m → entry = chainEntry n (i - s)) →
      (heapMarkBlocksTaken.loop (((s + n : Nat) : Int) - 1) m i entry t).entries j =
        if i ≤ j ∧ j < s + n then chainEntry n (j - s) else t.entries j
  | 0, i, _, _, _, him, _ => by
    simp only [heapMarkBlocksTaken.loop]
    rw [if_neg (by omega)]
  | m + 1, i, entry, t, hs, him, he => by
    simp only [heapMarkBlocksTaken.loop]
    have hnext : 0 < m → (if (i : Int) ≠ ((s + n : Nat) : Int) - 1 - 1 then entryTaken ||| hasNext
        else entryTaken) = chainEntry n (i + 1 - s) := fun hm => next_chainEntry hs (by omega)
    rw [markBlocksTaken_loop_entries m (i + 1) _ _ (by omega) (by omega) hnext,
      HeapTable.set_entries, he (by omega)]
    by_cases hj : j = i
    · subst hj
      rw [if_neg (by omega), if_pos rfl, if_pos (by omega)]
    · rw [if_neg hj]
      by_cases hij : i ≤ j ∧ j < s + n
      · rw [if_pos hij, if_pos (by omega)]
      · rw [if_neg hij, if_neg (by omega)]

/-- `end_block` and the number of iterations for a request of at least one block. -/
theorem endBlock_eq {s n : Nat} (hn : 1 ≤ n) (h : s + n ≤ 2 ^ 31) :
    Word.toInt (Word.sub (Word.add s n) 1) = ((s + n : Nat) : Int) - 1 := by
  rw [Word.add_of_lt (by omega), Word.sub_of_le (by omega) (by omega), Word.toInt_of_lt (by omega)]
  omega

section
variable {heap : Heap} {s n : Nat} (hn : 1 ≤ n) (h : s + n ≤ 2 ^ 31)
include hn h

/-- **Marking writes a chain**, and nothing else. -/
theorem markBlocksTaken_entries (j : Nat) :
    (heapMarkBlocksTaken heap s n).table.entries j =
      if s ≤ j ∧ j < s + n then chainEntry n (j - s) else heap.table.entries j := by
  unfold heapMarkBlocksTaken
  simp only [endBlock_eq hn h]
  refine markBlocksTaken_loop_entries _ s _ _ (Nat.le_refl s) (by omega) fun _ => ?_
  simp [chainEntry]

theorem markBlocksTaken_written (j : Nat) :
    j ∈ (heapMarkBlocksTaken heap s n).table.written ↔
      (s ≤ j ∧ j < s + n) ∨ j ∈ heap.table.written := by
  have hm : (((s + n : Nat) : Int) - 1 + 1 - s).toNat = n := by omega
  simp only [heapMarkBlocksTaken, endBlock_eq hn h, markBlocksTaken_loop_written, hm]

end

@[simp] theorem markBlocksTaken_total (heap : Heap) (s n : Nat) :
    (heapMarkBlocksTaken heap s n).table.total = heap.table.total := by
  simp only [heapMarkBlocksTaken, markBlocksTaken_loop_total]

@[simp] theorem markBlocksTaken_saddr (heap : Heap) (s n : Nat) :
    (heapMarkBlocksTaken heap s n).saddr = heap.saddr := by
  simp only [heapMarkBlocksTaken]

/-- No block requested: the loop does not run. -/
theorem markBlocksTaken_zero {heap : Heap} {s : Nat} (h : s < 2 ^ 31) :
    heapMarkBlocksTaken heap s 0 = heap := by
  have hend : Word.toInt (Word.sub (Word.add s 0) 1) = (s : Int) - 1 := by
    rw [Word.add_of_lt (by omega)]
    rcases Nat.eq_zero_or_pos s with rfl | hs
    · decide +kernel
    · rw [Word.sub_of_le (by omega) (by omega), Word.toInt_of_lt (by omega)]
      omega
  have hm : ((s : Int) - 1 + 1 - s).toNat = 0 := by omega
  simp only [heapMarkBlocksTaken, hend, hm, heapMarkBlocksTaken.loop]

/-! ## Freeing -/

theorem markBlocksFree_loop_total :
    ∀ (m i : Nat) (t : HeapTable), (heapMarkBlocksFree.loop m i t).total = t.total
  | 0, _, _ => rfl
  | m + 1, i, t => by
    simp only [heapMarkBlocksFree.loop]
    split
    · rfl
    · rw [markBlocksFree_loop_total m, HeapTable.set_total]

/-- The freeing loop writes only the blocks it has left. -/
theorem markBlocksFree_loop_written {j : Nat} :
    ∀ (m i : Nat) (t : HeapTable), j ∈ (heapMarkBlocksFree.loop m i t).written →
      (i ≤ j ∧ j < i + m) ∨ j ∈ t.written
  | 0, _, _, h => .inr h
  | m + 1, i, t, h => by
    simp only [heapMarkBlocksFree.loop] at h
    have here : j ∈ (t.set i entryFree).written → (i ≤ j ∧ j < i + (m + 1)) ∨ j ∈ t.written := by
      rw [HeapTable.set_written, List.mem_cons]
      rintro (rfl | h)
      · exact .inl (by omega)
      · exact .inr h
    split at h
    · exact here h
    · rcases markBlocksFree_loop_written m (i + 1) _ h with h | h
      · exact .inl (by omega)
      · exact here h

/-- Freeing inside a chain clears the rest of it, up to the end of the table. -/
theorem markBlocksFree_loop_chain {s n total j : Nat} :
    ∀ (m i : Nat) (t : HeapTable), s ≤ i → i < s + n → i + m = total →
      (∀ k, i ≤ s + k → k < n → s + k < total → t.entries (s + k) = chainEntry n k) →
      (heapMarkBlocksFree.loop m i t).entries j =
        if i ≤ j ∧ j < s + n ∧ j < total then entryFree else t.entries j
  | 0, i, t, _, _, him, _ => by
    simp only [heapMarkBlocksFree.loop]
    rw [if_neg (by omega)]
  | m + 1, i, t, hs, hi, him, hc => by
    simp only [heapMarkBlocksFree.loop]
    have hentry : t.entries i = chainEntry n (i - s) := by
      have := hc (i - s) (by omega) (by omega) (by omega)
      rwa [show s + (i - s) = i by omega] at this
    rw [hentry]
    by_cases hlast : n ≤ i - s + 1
    · rw [if_pos (chainEntry_hasNext.2 hlast), HeapTable.set_entries]
      by_cases hj : j = i
      · rw [if_pos hj, if_pos (by omega)]
      · rw [if_neg hj, if_neg (by omega)]
    · rw [if_neg (fun h => hlast (chainEntry_hasNext.1 h)),
        markBlocksFree_loop_chain (s := s) (n := n) m (i + 1) _ (by omega)
          (by omega) (show i + 1 + m = total by omega), HeapTable.set_entries]
      · by_cases hj : j = i
        · rw [if_pos hj, if_neg (by omega), if_pos (by omega)]
        · rw [if_neg hj]
          by_cases hij : i ≤ j ∧ j < s + n ∧ j < total
          · rw [if_pos hij, if_pos (by omega)]
          · rw [if_neg hij, if_neg (by omega)]
      · intro k hk hkn hkt
        rw [HeapTable.set_entries, if_neg (by omega)]
        exact hc k (by omega) hkn hkt

/-- **Freeing a chain** clears its entries, and nothing else. -/
theorem markBlocksFree_chain {heap : Heap} {s n : Nat}
    (h : IsChain heap.table.entries heap.table.total s n) (hs : s < 2 ^ 32) (j : Nat) :
    (heapMarkBlocksFree heap s).table.entries j =
      if s ≤ j ∧ j < s + n ∧ j < heap.table.total then entryFree else heap.table.entries j := by
  have := h.lt
  have := h.pos
  unfold heapMarkBlocksFree
  simp only [Word.ofInt_natCast hs]
  exact markBlocksFree_loop_chain _ s _ (Nat.le_refl s) (by omega) (by omega)
    fun k _ hk hkt => h.entry k hk hkt

/-- Freeing from outside the table does nothing. -/
theorem markBlocksFree_outside {heap : Heap} {z : Int} (h : heap.table.total ≤ Word.ofInt z) :
    heapMarkBlocksFree heap z = heap := by
  unfold heapMarkBlocksFree
  simp only [show heap.table.total - Word.ofInt z = 0 by omega, heapMarkBlocksFree.loop]

@[simp] theorem markBlocksFree_total (heap : Heap) (z : Int) :
    (heapMarkBlocksFree heap z).table.total = heap.table.total := by
  simp only [heapMarkBlocksFree, markBlocksFree_loop_total]

@[simp] theorem markBlocksFree_saddr (heap : Heap) (z : Int) :
    (heapMarkBlocksFree heap z).saddr = heap.saddr := by
  simp only [heapMarkBlocksFree]

theorem markBlocksFree_written {heap : Heap} {z : Int} {j : Nat}
    (h : j ∈ (heapMarkBlocksFree heap z).table.written) :
    j < heap.table.total ∨ j ∈ heap.table.written := by
  rcases markBlocksFree_loop_written _ _ _ h with h | h
  · exact .inl (by omega)
  · exact .inr h

end Pandora
