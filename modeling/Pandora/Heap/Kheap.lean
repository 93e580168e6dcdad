import Pandora.Heap.Alloc
import Pandora.Lib.ByteMem

/-!
# The kernel heap (`memory/heap/kheap.c`)

`Kmem` is the kernel's memory: the bytes and the heap that hands out blocks of them. The kernel heap
has its 25600 blocks at `0x01000000` (`Heap.Kernel`), so block `b` is at `blockAddr b` and every
block is below `2 ^ 28`.

`Kmem.fault` is a ghost: the code has read or written through, or freed, a pointer that is null,
carries an error code or is uninitialised. On the target such an access goes to the memory at that address, and so it
does in the model. Two more ghosts say how the allocations went: `denied` is set when one is answered
with null, `short` when one is answered with an address from which on the bytes asked for are not in
blocks of the heap marked for it (the free run found is shorter than the request, or the rounding of
the size wrapped to no block).
-/

namespace Pandora

open ByteMem

structure Kmem where
  heap : Heap
  mem : Mem
  fault : Bool := false
  short : Bool := false
  denied : Bool := false

/-- `ISERR` of `kernel.h`, on a pointer -/
def iserr (p : Nat) : Bool := Word.toInt p < 0

/-- The pointer `p` is followed. -/
def Kmem.follow (k : Kmem) (p : Nat) : Kmem :=
  if p = 0 ∨ iserr p then { k with fault := true } else k

/-- No ghost has changed. -/
structure Kmem.Quiet (k k' : Kmem) : Prop where
  fault : k'.fault = k.fault
  short : k'.short = k.short
  denied : k'.denied = k.denied

/-- The bytes asked for are in the blocks that `heap_malloc` marks from `ptr` on. -/
def Heap.fits (heap : Heap) (ptr size : Nat) : Bool :=
  size ≤ 4096 * (heapAlignValueToUpper size / 4096) &&
    heap.blockOf ptr + heapAlignValueToUpper size / 4096 ≤ heap.table.total

def kmalloc (k : Kmem) (size : Nat) : Nat × Kmem :=
  let (ptr, heap) := heapMalloc k.heap size
  (ptr, { k with
    heap := heap
    short := k.short || (ptr ≠ 0 && !k.heap.fits ptr size)
    denied := k.denied || ptr = 0 })

/-- Malloc and set to null -/
def kzalloc (k : Kmem) (size : Nat) : Nat × Kmem :=
  let (ptr, k) := kmalloc k size
  if ptr = 0 then (0, k) else (ptr, { k with mem := fill k.mem ptr size 0 })

def kfree (k : Kmem) (ptr : Nat) : Kmem :=
  let k := k.follow ptr
  { k with heap := heapFree k.heap ptr }

/-! ## Where the kernel heap is -/

/-- `PANDORAOS_HEAP_ADDRESS` and `PANDORAOS_HEAP_SIZE_BYTES / PANDORAOS_HEAP_BLOCK_SIZE` -/
structure Heap.Kernel (heap : Heap) : Prop where
  saddr : heap.saddr = 0x01000000
  total : heap.table.total = 25600

/-- The address of block `b` of the kernel heap. -/
def blockAddr (b : Nat) : Nat := 0x01000000 + 4096 * b

theorem Heap.Kernel.shape {heap : Heap} (h : heap.Kernel) : heap.Shape where
  saddr_lt := by rw [h.saddr]; decide
  total_lt := by rw [h.total]; decide

theorem Heap.Kernel.blockToAddress {heap : Heap} (h : heap.Kernel) {b : Nat} (hb : b < 25600) :
    heapBlockToAddress heap b = blockAddr b := by
  unfold heapBlockToAddress blockAddr
  rw [h.saddr, Word.mul_of_lt (by omega), Word.add_of_lt (by omega)]
  omega

theorem blockAddr_inj {b b' : Nat} : blockAddr b = blockAddr b' ↔ b = b' := by
  unfold blockAddr
  omega

theorem blockAddr_ne_zero (b : Nat) : blockAddr b ≠ 0 := by
  unfold blockAddr
  omega

theorem follow_of_ok {p : Nat} (h0 : p ≠ 0) (h : p < 2 ^ 31) (k : Kmem) : k.follow p = k := by
  refine if_neg ?_
  rintro (hp | hp)
  · exact h0 hp
  · rw [iserr, Word.toInt_of_lt h, decide_eq_true_eq] at hp
    omega

theorem blockAddr_lt {b : Nat} (h : b < 25600) : blockAddr b < 2 ^ 28 := by
  unfold blockAddr
  omega

@[simp] theorem follow_blockAddr {b : Nat} (h : b < 25600) (k : Kmem) :
    k.follow (blockAddr b) = k :=
  follow_of_ok (blockAddr_ne_zero b) (by have := blockAddr_lt h; omega) k

@[simp] theorem follow_zero (k : Kmem) : k.follow 0 = { k with fault := true } :=
  if_pos (.inl rfl)

@[simp] theorem follow_heap (k : Kmem) (p : Nat) : (k.follow p).heap = k.heap := by
  unfold Kmem.follow
  split <;> rfl

@[simp] theorem follow_mem (k : Kmem) (p : Nat) : (k.follow p).mem = k.mem := by
  unfold Kmem.follow
  split <;> rfl

/-- An error code cast to a pointer is one. -/
theorem iserr_neg {z : Int} (h : -2 ^ 31 ≤ z) (h' : z < 0) : iserr (Word.ofInt z) = true := by
  have hint : Word.toInt (Word.ofInt z) = z := by
    have := Word.int_of_mem h (by omega)
    unfold Word.int at this
    exact this
  unfold iserr
  rw [hint]
  exact decide_eq_true h'

theorem not_iserr_ne {z : Int} (h : -2 ^ 31 ≤ z) (h' : z < 0) : iserr (Word.ofInt z) ≠ false := by
  rw [iserr_neg h h']
  decide

/-- The ghost only ever goes up. -/
theorem follow_fault {k : Kmem} (h : k.fault = true) (p : Nat) : (k.follow p).fault = true := by
  unfold Kmem.follow
  split
  · rfl
  · exact h

theorem Heap.Kernel.markBlocksTaken {heap : Heap} (h : heap.Kernel) (s n : Nat) :
    (heapMarkBlocksTaken heap s n).Kernel :=
  ⟨(markBlocksTaken_saddr heap s n).trans h.saddr, (markBlocksTaken_total heap s n).trans h.total⟩

theorem Heap.Kernel.free {heap : Heap} (h : heap.Kernel) (p : Nat) : (heapFree heap p).Kernel :=
  ⟨(heapFree_saddr heap p).trans h.saddr, (heapFree_total heap p).trans h.total⟩

theorem Heap.Kernel.kzalloc {k : Kmem} (h : k.heap.Kernel) (size : Nat) :
    (kzalloc k size).2.heap.Kernel := by
  have hm : (heapMalloc k.heap size).2.Kernel :=
    ⟨(heapMalloc_saddr _ _).trans h.saddr, (heapMalloc_total _ _).trans h.total⟩
  unfold Pandora.kzalloc kmalloc
  dsimp only
  split <;> exact hm

/-! ## `kzalloc` -/

/-- The memory after the `n` blocks from `b` on were taken and `size` bytes of them zeroed. -/
def Kmem.take (k : Kmem) (b n size : Nat) : Kmem :=
  { k with heap := heapMarkBlocksTaken k.heap b n, mem := fill k.mem (blockAddr b) size 0 }

/-- An allocation was answered with null. -/
def Kmem.deny (k : Kmem) : Kmem := { k with denied := true }

@[simp] theorem take_heap (k : Kmem) (b n size : Nat) :
    (k.take b n size).heap = heapMarkBlocksTaken k.heap b n := rfl
@[simp] theorem take_mem (k : Kmem) (b n size : Nat) :
    (k.take b n size).mem = fill k.mem (blockAddr b) size 0 := rfl
@[simp] theorem deny_heap (k : Kmem) : k.deny.heap = k.heap := rfl
@[simp] theorem deny_mem (k : Kmem) : k.deny.mem = k.mem := rfl
@[simp] theorem take_fault (k : Kmem) (b n size : Nat) : (k.take b n size).fault = k.fault := rfl
@[simp] theorem take_short (k : Kmem) (b n size : Nat) : (k.take b n size).short = k.short := rfl
@[simp] theorem take_denied (k : Kmem) (b n size : Nat) :
    (k.take b n size).denied = k.denied := rfl

theorem Kmem.Quiet.refl (k : Kmem) : k.Quiet k := ⟨rfl, rfl, rfl⟩

theorem Kmem.Quiet.trans {k k' k'' : Kmem} (h : k.Quiet k') (h' : k'.Quiet k'') : k.Quiet k'' :=
  ⟨h'.fault.trans h.fault, h'.short.trans h.short, h'.denied.trans h.denied⟩

theorem Kmem.Quiet.take (k : Kmem) (b n size : Nat) : k.Quiet (k.take b n size) := ⟨rfl, rfl, rfl⟩

theorem kzalloc_of_found {k : Kmem} (hk : k.heap.Kernel) {size n b : Nat}
    (hn : heapAlignValueToUpper size / 4096 = n) (hsize : size ≤ 4096 * n) (hb : b + n ≤ 25600)
    (hlt : b < 25600)
    (he : heapMallocBlocks k.heap n = (heapBlockToAddress k.heap b, heapMarkBlocksTaken k.heap b n)) :
    kzalloc k size = (blockAddr b, k.take b n size) := by
  have hfits : k.heap.fits (heapBlockToAddress k.heap b) size = true := by
    unfold Heap.fits
    rw [hn, blockOf_blockToAddress hk.shape.saddr_lt (by omega), hk.total]
    simp [hsize, hb]
  have hm : heapMalloc k.heap size = (blockAddr b, heapMarkBlocksTaken k.heap b n) := by
    unfold heapMalloc
    rw [hn, he, hk.blockToAddress hlt]
  have hne := blockAddr_ne_zero b
  rw [hk.blockToAddress hlt] at hfits
  unfold kzalloc kmalloc
  simp [hm, hfits, hne, Kmem.take]

theorem kzalloc_of_none {k : Kmem} {size : Nat} (he : heapMalloc k.heap size = (0, k.heap)) :
    kzalloc k size = (0, k.deny) := by
  unfold kzalloc kmalloc
  simp [he, Kmem.deny]

/-- The outcomes of `kzalloc` where the heap does not run short: the first run of free blocks is
taken and zeroed, or there is none. -/
theorem kzalloc_served {k : Kmem} (hk : k.heap.Kernel) {size : Nat} (h1 : 1 ≤ size)
    (h2 : size ≤ 2 ^ 32 - 4096) (hshort : ¬ k.heap.RunsShort (blocksFor size)) :
    (∃ b, b + blocksFor size ≤ 25600 ∧ FreeRun k.heap.table.entries b (blocksFor size) ∧
      (∀ s < b, ¬ FreeRun k.heap.table.entries s (blocksFor size)) ∧
      kzalloc k size = (blockAddr b, k.take b (blocksFor size) size)) ∨
    (kzalloc k size = (0, k.deny) ∧
      ¬ HasRun k.heap.table.entries 25600 (blocksFor size)) := by
  have hn := blocksFor_pos h1
  rcases heapMallocBlocks_served hn hshort with ⟨b, hb, hrun, hfirst, he⟩ | ⟨he, hno⟩
  · rw [hk.total] at hb
    exact .inl ⟨b, hb, hrun, hfirst, kzalloc_of_found hk (alignValueToUpper_div h2)
      (le_blocksFor size) hb (by omega) he⟩
  · rw [hk.total] at hno
    exact .inr ⟨kzalloc_of_none ((heapMalloc_eq h2).trans he), hno⟩

/-- A request of one block never runs short: it takes a free block or there is none. -/
theorem kzalloc_page {k : Kmem} (hk : k.heap.Kernel) (size : Nat) (h1 : 1 ≤ size)
    (h2 : size ≤ 4096) :
    (∃ b, b < 25600 ∧ Free (k.heap.table.entries b) ∧
      (∀ s < b, ¬ Free (k.heap.table.entries s)) ∧ kzalloc k size = (blockAddr b, k.take b 1 size)) ∨
    (kzalloc k size = (0, k.deny) ∧
      ∀ b < 25600, ¬ Free (k.heap.table.entries b)) := by
  have hone : blocksFor size = 1 := by
    unfold blocksFor
    omega
  have hrun : ∀ b, FreeRun k.heap.table.entries b 1 ↔ Free (k.heap.table.entries b) := fun b =>
    ⟨fun h => h 0 (by decide), fun h i hi => by
      obtain rfl : i = 0 := by omega
      exact h⟩
  have hshort : ¬ k.heap.RunsShort (blocksFor size) := by
    rintro ⟨hno, htot, hlast⟩
    exact hno (hone ▸ ⟨k.heap.table.total - 1, by omega, (hrun _).2 hlast⟩)
  rcases kzalloc_served hk h1 (by omega) hshort with ⟨b, hb, hfree, hfirst, he⟩ | ⟨he, hno⟩
  · rw [hone] at hb hfree hfirst he
    exact .inl ⟨b, by omega, (hrun b).1 hfree, fun s hs h => hfirst s hs ((hrun s).2 h), he⟩
  · exact .inr ⟨he, fun b hb hfree => hno (hone ▸ ⟨b, by omega, (hrun b).2 hfree⟩)⟩

/-- The table after one block is taken. -/
theorem markBlocksTaken_one (heap : Heap) {b : Nat} (hb : b < 25600) (j : Nat) :
    (heapMarkBlocksTaken heap b 1).table.entries j =
      if j = b then chainEntry 1 0 else heap.table.entries j := by
  rw [markBlocksTaken_entries (Nat.le_refl 1) (by omega)]
  by_cases hj : j = b
  · rw [if_pos (by omega), if_pos hj, show j - b = 0 by omega]
  · rw [if_neg (by omega), if_neg hj]

/-- The kernel's memory after `kheap_init`, all bytes zero. -/
def bootKmem : Kmem where
  heap := { saddr := 0x01000000, table := { entries := fun _ => entryFree, total := 25600 } }
  mem := fun _ => 0

theorem bootKmem_kernel : bootKmem.heap.Kernel := ⟨rfl, rfl⟩

end Pandora
