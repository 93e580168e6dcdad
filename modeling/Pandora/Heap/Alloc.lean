import Pandora.Heap.Chain

/-!
# `heap_malloc` and `heap_free`

Every address the heap hands out is the address of a block; `blockOf` is the block at an address.
`heap_address_to_block` finds it again for the blocks whose offset is below `2 ^ 31`
(`addressToBlock_low`); from there on its `int` is negative (`addressToBlock_high`) and `heap_free`
does nothing (`heapFree_high`).

`heapMallocBlocks_spec` gives the three outcomes of an allocation, after the outcomes of the search.
-/

namespace Pandora

/-- The number of blocks that hold `size` bytes. -/
def blocksFor (size : Nat) : Nat := (size + 4095) / 4096

/-- What `heap_create` establishes about the numbers in a heap, and no operation changes. -/
structure Heap.Shape (heap : Heap) : Prop where
  saddr_lt : heap.saddr < 2 ^ 32
  total_lt : heap.table.total < 2 ^ 20

/-- The block at the address `p`. -/
def Heap.blockOf (heap : Heap) (p : Nat) : Nat := Word.sub p heap.saddr / 4096

theorem blocksFor_pos {size : Nat} (h : 1 ≤ size) : 1 ≤ blocksFor size := by
  unfold blocksFor
  omega

theorem blocksFor_le {size : Nat} (h : size ≤ 2 ^ 32 - 4096) : blocksFor size ≤ 2 ^ 20 - 1 := by
  unfold blocksFor
  omega

theorem le_blocksFor (size : Nat) : size ≤ 4096 * blocksFor size := by
  unfold blocksFor
  omega

/-- In the range of sizes that does not wrap, the heap asks for exactly the blocks needed. -/
theorem alignValueToUpper_div {size : Nat} (h : size ≤ 2 ^ 32 - 4096) :
    heapAlignValueToUpper size / 4096 = blocksFor size := by
  unfold heapAlignValueToUpper blocksFor
  split
  · omega
  · rw [Word.add_of_lt (by omega)]
    omega

theorem heapMalloc_eq {heap : Heap} {size : Nat} (h : size ≤ 2 ^ 32 - 4096) :
    heapMalloc heap size = heapMallocBlocks heap (blocksFor size) := by
  unfold heapMalloc
  rw [alignValueToUpper_div h]

/-! ## Blocks and addresses -/

theorem sub_blockToAddress {heap : Heap} (hs : heap.saddr < 2 ^ 32) {b : Nat} (hb : b < 2 ^ 20) :
    Word.sub (heapBlockToAddress heap b) heap.saddr = b * 4096 := by
  unfold heapBlockToAddress
  rw [Word.mul_of_lt (by omega), Word.add_eq, Word.sub_eq]
  omega

theorem blockOf_blockToAddress {heap : Heap} (hs : heap.saddr < 2 ^ 32) {b : Nat}
    (hb : b < 2 ^ 20) : heap.blockOf (heapBlockToAddress heap b) = b := by
  unfold Heap.blockOf
  rw [sub_blockToAddress hs hb]
  omega

theorem addressToBlock_low {heap : Heap} (hs : heap.saddr < 2 ^ 32) {b : Nat} (hb : b < 2 ^ 19) :
    heapAddressToBlock heap (heapBlockToAddress heap b) = b := by
  unfold heapAddressToBlock
  rw [sub_blockToAddress hs (by omega), Word.toInt_of_lt (by omega),
    Int.tdiv_eq_ediv_of_nonneg (by omega)]
  omega

/-- The offset of the block does not fit in an `int`. -/
theorem addressToBlock_high {heap : Heap} (hs : heap.saddr < 2 ^ 32) {b : Nat} (hb : 2 ^ 19 ≤ b)
    (hb' : b < 2 ^ 20) : heapAddressToBlock heap (heapBlockToAddress heap b) = b - 2 ^ 20 := by
  unfold heapAddressToBlock
  rw [sub_blockToAddress hs hb', Word.toInt_of_ge (by omega) (by omega),
    show ((b * 4096 : Nat) : Int) - 2 ^ 32 = (b - 2 ^ 20) * 4096 by omega,
    Int.mul_tdiv_cancel _ (by decide)]

/-- Freeing a block at an offset below `2 ^ 31`. -/
theorem heapFree_low {heap : Heap} (hs : heap.saddr < 2 ^ 32) {b : Nat} (hb : b < 2 ^ 19) :
    heapFree heap (heapBlockToAddress heap b) = heapMarkBlocksFree heap b := by
  unfold heapFree
  rw [addressToBlock_low hs hb]

/-- Freeing a block at an offset from `2 ^ 31` on leaves the heap as it is. -/
theorem heapFree_high {heap : Heap} (h : heap.Shape) {b : Nat} (hb : 2 ^ 19 ≤ b)
    (hb' : b < 2 ^ 20) : heapFree heap (heapBlockToAddress heap b) = heap := by
  have ht := h.total_lt
  have hneg := Word.ofInt_neg (z := b - 2 ^ 20) (by omega) (by omega)
  unfold heapFree
  rw [addressToBlock_high h.saddr_lt hb hb', markBlocksFree_outside (by omega)]

/-! ## The operations keep the shape -/

@[simp] theorem heapMallocBlocks_saddr (heap : Heap) (n : Nat) :
    (heapMallocBlocks heap n).2.saddr = heap.saddr := by
  unfold heapMallocBlocks
  dsimp only
  split <;> simp

@[simp] theorem heapMallocBlocks_total (heap : Heap) (n : Nat) :
    (heapMallocBlocks heap n).2.table.total = heap.table.total := by
  unfold heapMallocBlocks
  dsimp only
  split <;> simp

@[simp] theorem heapMalloc_saddr (heap : Heap) (size : Nat) :
    (heapMalloc heap size).2.saddr = heap.saddr := heapMallocBlocks_saddr _ _

@[simp] theorem heapMalloc_total (heap : Heap) (size : Nat) :
    (heapMalloc heap size).2.table.total = heap.table.total := heapMallocBlocks_total _ _

@[simp] theorem heapFree_saddr (heap : Heap) (p : Nat) : (heapFree heap p).saddr = heap.saddr :=
  markBlocksFree_saddr _ _

@[simp] theorem heapFree_total (heap : Heap) (p : Nat) :
    (heapFree heap p).table.total = heap.table.total := markBlocksFree_total _ _

theorem heapFree_written {heap : Heap} {p j : Nat} (h : j ∈ (heapFree heap p).table.written) :
    j < heap.table.total ∨ j ∈ heap.table.written := markBlocksFree_written h

/-! ## Outcomes of an allocation -/

/-- The outcomes of `heap_malloc_blocks` for `n` blocks, after those of the search. -/
inductive MallocBlocks (heap : Heap) (n : Nat) : Nat × Heap → Prop
  | found (s : Nat) (hn : 1 ≤ n) (hs : s + n ≤ heap.table.total)
      (hrun : FreeRun heap.table.entries s n)
      (hfirst : ∀ s' < s, ¬ FreeRun heap.table.entries s' n) :
      MallocBlocks heap n (heapBlockToAddress heap s, heapMarkBlocksTaken heap s n)
  | short (s : Nat) (hs : s < heap.table.total)
      (htail : FreeRun heap.table.entries s (heap.table.total - s))
      (hbefore : s = 0 ∨ ¬ Free (heap.table.entries (s - 1)))
      (hno : 1 ≤ n → ¬ HasRun heap.table.entries heap.table.total n) :
      MallocBlocks heap n (heapBlockToAddress heap s, heapMarkBlocksTaken heap s n)
  | none (hlast : heap.table.total = 0 ∨ ¬ Free (heap.table.entries (heap.table.total - 1)))
      (hno : 1 ≤ n → ¬ HasRun heap.table.entries heap.table.total n) : MallocBlocks heap n (0, heap)

theorem heapMallocBlocks_spec (heap : Heap) (n : Nat) :
    MallocBlocks heap n (heapMallocBlocks heap n) := by
  have h := startBlock_spec heap n
  unfold heapMallocBlocks
  generalize heapGetStartBlock heap n = bs at h ⊢
  cases h with
  | found s hn hs hrun hfirst =>
    rw [if_neg (by omega)]
    exact .found s hn hs hrun hfirst
  | short s hs htail hbefore hno =>
    rw [if_neg (by omega)]
    exact .short s hs htail hbefore hno
  | none hlast hno =>
    rw [if_pos (by decide)]
    exact .none hlast hno

/-- In the `short` outcome the run at the end of the table is shorter than the request. -/
theorem short_lt {entries : Nat → UInt8} {total s n : Nat} (hs : s < total)
    (htail : FreeRun entries s (total - s)) (hno : ¬ HasRun entries total n) : total < s + n := by
  rcases Nat.lt_or_ge total (s + n) with h | h
  · exact h
  · exact absurd ⟨s, h, htail.mono (Nat.le_refl s) (by omega)⟩ hno

/-- The request a heap cannot serve and yet answers: no run is long enough and the last block is
free. -/
def Heap.RunsShort (heap : Heap) (n : Nat) : Prop :=
  ¬ HasRun heap.table.entries heap.table.total n ∧ heap.table.total ≠ 0 ∧
    Free (heap.table.entries (heap.table.total - 1))

/-- Where the heap does not run short, an allocation finds a run or leaves the heap as it is. -/
theorem heapMallocBlocks_served {heap : Heap} {n : Nat} (hn : 1 ≤ n) (h : ¬ heap.RunsShort n) :
    (∃ s, s + n ≤ heap.table.total ∧ FreeRun heap.table.entries s n ∧
      (∀ s' < s, ¬ FreeRun heap.table.entries s' n) ∧
      heapMallocBlocks heap n = (heapBlockToAddress heap s, heapMarkBlocksTaken heap s n)) ∨
    (heapMallocBlocks heap n = (0, heap) ∧ ¬ HasRun heap.table.entries heap.table.total n) := by
  have hm := heapMallocBlocks_spec heap n
  generalize heapMallocBlocks heap n = r at hm ⊢
  cases hm with
  | found s hn hs hrun hfirst => exact .inl ⟨s, hs, hrun, hfirst, rfl⟩
  | short s hs htail hbefore hno =>
    refine absurd ⟨hno hn, by omega, ?_⟩ h
    have := htail (heap.table.total - s - 1) (by omega)
    rwa [show s + (heap.table.total - s - 1) = heap.table.total - 1 by omega] at this
  | none hlast hno => exact .inr ⟨rfl, hno hn⟩

/-! ## Creation -/

theorem heapCreate_of {heap : Heap} {ptr end' : Nat} {table : HeapTable} (hp : ptr % 4096 = 0)
    (he : end' % 4096 = 0) (ht : table.total = Word.sub end' ptr / 4096) :
    heapCreate heap ptr end' table = (allOk, { saddr := ptr, table := table.clear }) := by
  simp [heapCreate, heapValidateTable, heapValidateAlignment, hp, he, ht, allOk]

theorem heapCreate_ok {heap h : Heap} {ptr end' : Nat} {table : HeapTable}
    (hc : heapCreate heap ptr end' table = (allOk, h)) :
    ptr % 4096 = 0 ∧ end' % 4096 = 0 ∧ table.total = Word.sub end' ptr / 4096 ∧
      h = { saddr := ptr, table := table.clear } := by
  unfold heapCreate heapValidateTable heapValidateAlignment at hc
  by_cases hal : ptr % 4096 = 0 ∧ end' % 4096 = 0
  · by_cases htot : table.total = Word.sub end' ptr / 4096
    · simp [hal.1, hal.2, htot, allOk] at hc
      exact ⟨hal.1, hal.2, htot, hc.symm⟩
    · simp [hal.1, hal.2, htot, allOk, einvarg] at hc
  · rw [if_pos (by simpa [Classical.or_iff_not_imp_left] using hal)] at hc
    simp [allOk, einvarg] at hc

theorem heapCreate_shape {heap h : Heap} {ptr end' : Nat} {table : HeapTable} (hp : ptr < 2 ^ 32)
    (hc : heapCreate heap ptr end' table = (allOk, h)) : h.Shape := by
  obtain ⟨-, -, ht, rfl⟩ := heapCreate_ok hc
  have := Word.sub_lt end' ptr
  exact ⟨hp, by simp only [HeapTable.clear]; omega⟩

end Pandora
