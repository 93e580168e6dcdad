import Mathlib.Logic.Function.Basic
import Pandora.Lib.Word

/-!
# The block heap (`memory/heap/heap.c`)

A heap hands out blocks of `PANDORAOS_HEAP_BLOCK_SIZE = 4096` bytes. Its table has one entry byte
a block; an allocation is a chain of taken entries, the first with `IS_FIRST`, all but the last
with `HAS_NEXT`, and nothing else records its length.

`HeapTable.entries` is the memory at the C pointer `entries`, so it has a value at every index,
also from `total` on: a write out of bounds is a write. `HeapTable.written` is a ghost: the indices
written so far, the latest first.

`size_t`, `uint32_t` and pointers are 32 bits wide: natural numbers, with wrapping arithmetic
(`Word.add`, `Word.sub`) where the code can wrap. The block counters of the C loops are plain numbers: `heap_create` accepts only
`total < 2 ^ 20`, so they stay below `2 ^ 31`.
-/

namespace Pandora

/-! ## Status codes (`status.h`) -/

def allOk : Int := 0
def eio : Int := 1
def einvarg : Int := 2
def enomem : Int := 3

/-! ## The table (`heap.h`) -/

def entryTaken : UInt8 := 0x01
def entryFree : UInt8 := 0x00
def hasNext : UInt8 := 0x80
def isFirst : UInt8 := 0x40

structure HeapTable where
  entries : Nat → UInt8
  total : Nat
  written : List Nat := []

structure Heap where
  table : HeapTable
  saddr : Nat

/-- `table->entries[i] = entry` -/
def HeapTable.set (t : HeapTable) (i : Nat) (entry : UInt8) : HeapTable :=
  { t with entries := Function.update t.entries i entry, written := i :: t.written }

/-- `memset(table->entries, HEAP_BLOCK_TABLE_ENTRY_FREE, table->total)` -/
def HeapTable.clear (t : HeapTable) : HeapTable :=
  { t with
    entries := fun i => if i < t.total then entryFree else t.entries i
    written := List.range t.total ++ t.written }

/-! ## Creation -/

def heapValidateTable (ptr end' : Nat) (table : HeapTable) : Int :=
  let tableSize := Word.sub end' ptr
  let totalBlocks := tableSize / 4096
  if table.total ≠ totalBlocks then -einvarg else allOk

def heapValidateAlignment (ptr : Nat) : Bool := ptr % 4096 = 0

def heapCreate (heap : Heap) (ptr end' : Nat) (table : HeapTable) : Int × Heap :=
  if !heapValidateAlignment ptr || !heapValidateAlignment end' then (-einvarg, heap)
  else
    let heap : Heap := { saddr := ptr, table := table }
    let res := heapValidateTable ptr end' table
    if res < 0 then (res, heap)
    else (res, { heap with table := table.clear })

/-! ## Allocation -/

def heapAlignValueToUpper (val : Nat) : Nat :=
  if val % 4096 = 0 then val else Word.add (val - val % 4096) 4096

def heapGetEntryType (entry : UInt8) : UInt8 := entry &&& 0x0F

/-- The loop of `heap_get_start_block`: `n = total - i` blocks are left, the next is `i`; `bc` is
the length of the free run that ends before `i`, `bs` its first block or `-1`. -/
def heapGetStartBlock.loop (entries : Nat → UInt8) (totalBlocks : Nat) :
    (n i bc : Nat) → (bs : Int) → Int
  | 0, _, _, bs => bs
  | n + 1, i, bc, bs =>
    if heapGetEntryType (entries i) ≠ entryFree then loop entries totalBlocks n (i + 1) 0 (-1)
    else
      let bs := if bs = -1 then (i : Int) else bs
      let bc := bc + 1
      if bc = totalBlocks then bs else loop entries totalBlocks n (i + 1) bc bs

def heapGetStartBlock (heap : Heap) (totalBlocks : Nat) : Int :=
  let bs := heapGetStartBlock.loop heap.table.entries totalBlocks heap.table.total 0 0 (-1)
  if bs = -1 then -enomem else bs

def heapBlockToAddress (heap : Heap) (block : Nat) : Nat :=
  Word.add (Word.mul block 4096) heap.saddr

/-- The loop of `heap_mark_blocks_taken`: `n = end_block + 1 - i` blocks are left. -/
def heapMarkBlocksTaken.loop (endBlock : Int) : (n i : Nat) → UInt8 → HeapTable → HeapTable
  | 0, _, _, t => t
  | n + 1, i, entry, t =>
    let t := t.set i entry
    let entry := entryTaken
    let entry := if (i : Int) ≠ endBlock - 1 then entry ||| hasNext else entry
    loop endBlock n (i + 1) entry t

def heapMarkBlocksTaken (heap : Heap) (startBlock totalBlocks : Nat) : Heap :=
  let endBlock := Word.toInt (Word.sub (Word.add startBlock totalBlocks) 1)
  let entry := entryTaken ||| isFirst
  let entry := if totalBlocks > 1 then entry ||| hasNext else entry
  { heap with
    table := heapMarkBlocksTaken.loop endBlock (endBlock + 1 - startBlock).toNat startBlock entry
      heap.table }

def heapMallocBlocks (heap : Heap) (totalBlocks : Nat) : Nat × Heap :=
  let startBlock := heapGetStartBlock heap totalBlocks
  if startBlock < 0 then (0, heap)
  else
    let startBlock := startBlock.toNat
    (heapBlockToAddress heap startBlock, heapMarkBlocksTaken heap startBlock totalBlocks)

def heapMalloc (heap : Heap) (size : Nat) : Nat × Heap :=
  heapMallocBlocks heap (heapAlignValueToUpper size / 4096)

/-! ## Release -/

/-- The loop of `heap_mark_blocks_free`: `n = total - i` blocks are left. -/
def heapMarkBlocksFree.loop : (n i : Nat) → HeapTable → HeapTable
  | 0, _, t => t
  | n + 1, i, t =>
    let entry := t.entries i
    let t := t.set i entryFree
    if entry &&& hasNext = 0 then t else loop n (i + 1) t

/-- `startBlock` is an `int`; the loop counts in `size_t`. -/
def heapMarkBlocksFree (heap : Heap) (startBlock : Int) : Heap :=
  let i := Word.ofInt startBlock
  { heap with table := heapMarkBlocksFree.loop (heap.table.total - i) i heap.table }

def heapAddressToBlock (heap : Heap) (address : Nat) : Int :=
  (Word.toInt (Word.sub address heap.saddr)).tdiv 4096

def heapFree (heap : Heap) (ptr : Nat) : Heap :=
  heapMarkBlocksFree heap (heapAddressToBlock heap ptr)

end Pandora
