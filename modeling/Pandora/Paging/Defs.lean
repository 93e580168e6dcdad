import Pandora.Heap.Kheap

/-!
# Paging (`memory/paging/paging.c`)

A page directory is 1024 words, a table 1024 words more for each of them; a directory entry is the
address of its table with flags in the low 12 bits. A `struct paging_4gb_chunk` is one word, the
address of the directory. Addresses, entries and flags are 32-bit patterns.

`int offset` of `paging_new_4gb` wraps at `2 ^ 32`, as it does on the target.
-/

namespace Pandora

open ByteMem

/-! ## Flags (`paging.h`) -/

def pagingAccessFromAll : Nat := 0b100
def pagingIsWriteable : Nat := 0b010
def pagingIsPresent : Nat := 0b001

/-! ## Creation -/

/-- The inner loop of `paging_new_4gb`: `n = 1024 - b` entries of the table `entry` are left. -/
def pagingNew4gb.fill (entry offset flags : Nat) : (n b : Nat) → Mem → Mem
  | 0, _, m => m
  | n + 1, b, m =>
    fill entry offset flags n (b + 1)
      (write32 m (Word.add entry (4 * b)) (Word.add offset (b * 4096) ||| flags))

/-- The outer loop: `n = 1024 - i` tables are left. -/
def pagingNew4gb.loop (directory flags : Nat) : (n i offset : Nat) → Kmem → Kmem
  | 0, _, _, k => k
  | n + 1, i, offset, k =>
    let (entry, k) := kzalloc k 4096
    let k := k.follow entry
    let m := fill entry offset flags 1024 0 k.mem
    let offset := Word.add offset (1024 * 4096)
    let k := k.follow directory
    let m := write32 m (Word.add directory (4 * i)) (entry ||| flags ||| pagingIsWriteable)
    loop directory flags n (i + 1) offset { k with mem := m }

def pagingNew4gb (k : Kmem) (flags : Nat) : Nat × Kmem :=
  let (directory, k) := kzalloc k 4096
  let k := pagingNew4gb.loop directory flags 1024 0 0 k
  let (chunk4gb, k) := kzalloc k 4
  let k := k.follow chunk4gb
  (chunk4gb, { k with mem := write32 k.mem chunk4gb directory })

/-- The loop of `paging_free_4gb`: `n = 1024 - i` tables are left. -/
def pagingFree4gb.loop (chunk : Nat) : (n i : Nat) → Kmem → Kmem
  | 0, _, k => k
  | n + 1, i, k =>
    let k := k.follow chunk
    let k := k.follow (read32 k.mem chunk)
    let entry := read32 k.mem (Word.add (read32 k.mem chunk) (4 * i))
    let table := entry &&& 0xFFFFF000
    loop chunk n (i + 1) (kfree k table)

def pagingFree4gb (k : Kmem) (chunk : Nat) : Kmem :=
  let k := pagingFree4gb.loop chunk 1024 0 k
  let k := kfree k (read32 k.mem chunk)
  kfree k chunk

def paging4gbChunkGetDirectory (m : Mem) (chunk : Nat) : Nat := read32 m chunk

/-! ## Addresses -/

def pagingIsAligned (addr : Nat) : Bool := addr % 4096 = 0

/-- The status and the two out-parameters, which keep their values on an error. -/
def pagingGetIndexes (virtualAddress directoryIndexOut tableIndexOut : Nat) : Int × Nat × Nat :=
  if !pagingIsAligned virtualAddress then (-einvarg, directoryIndexOut, tableIndexOut)
  else (allOk, virtualAddress / (1024 * 4096), virtualAddress % (1024 * 4096) / 4096)

def pagingAlignToLowerPage (addr : Nat) : Nat := addr - addr % 4096

def pagingAlignAddress (ptr : Nat) : Nat :=
  if ptr % 4096 ≠ 0 then Word.sub (Word.add ptr 4096) (ptr % 4096) else ptr

/-! ## Entries -/

/-- Set a page table entry to the value provided -/
def pagingSet (m : Mem) (directory virt val : Nat) : Int × Mem :=
  if !pagingIsAligned virt then (-einvarg, m)
  else
    let (res, directoryIndex, tableIndex) := pagingGetIndexes virt 0 0
    if res < 0 then (res, m)
    else
      let entry := read32 m (Word.add directory (4 * directoryIndex))
      let table := entry &&& 0xFFFFF000
      (allOk, write32 m (Word.add table (4 * tableIndex)) val)

def pagingGet (m : Mem) (directory virt : Nat) : Nat :=
  let (_, directoryIndex, tableIndex) := pagingGetIndexes virt 0 0
  let entry := read32 m (Word.add directory (4 * directoryIndex))
  let table := entry &&& 0xFFFF000
  read32 m (Word.add table (4 * tableIndex))

def pagingGetPhyiscalAddress (m : Mem) (directory virt : Nat) : Nat :=
  let virtAddrNew := pagingAlignToLowerPage virt
  let difference := Word.sub virt virtAddrNew
  Word.add (pagingGet m directory virtAddrNew &&& 0xFFFFF000) difference

/-! ## Mapping -/

def pagingMap (m : Mem) (chunk virt phys flags : Nat) : Int × Mem :=
  if virt % 4096 ≠ 0 ∨ phys % 4096 ≠ 0 then (-einvarg, m)
  else pagingSet m (read32 m chunk) virt (phys ||| flags)

/-- The loop of `paging_map_range`: `n = count - i` pages are left. -/
def pagingMapRange.loop (chunk flags : Nat) : (n virt phys : Nat) → (res : Int) → Mem → Int × Mem
  | 0, _, _, res, m => (res, m)
  | n + 1, virt, phys, _, m =>
    let (res, m) := pagingMap m chunk virt phys flags
    if res < 0 then (res, m)
    else loop chunk flags n (Word.add virt 4096) (Word.add phys 4096) res m

def pagingMapRange (m : Mem) (chunk virt phys : Nat) (count : Int) (flags : Nat) : Int × Mem :=
  pagingMapRange.loop chunk flags count.toNat virt phys 0 m

def pagingMapTo (m : Mem) (chunk virt phys physEnd flags : Nat) : Int × Mem :=
  if virt % 4096 ≠ 0 then (-einvarg, m)
  else if phys % 4096 ≠ 0 then (-einvarg, m)
  else if physEnd % 4096 ≠ 0 then (-einvarg, m)
  else if physEnd < phys then (-einvarg, m)
  else
    let totalBytes := Word.sub physEnd phys
    let totalPages := totalBytes / 4096
    pagingMapRange m chunk virt phys totalPages flags

end Pandora
