import Pandora.Heap.Ledger
import Pandora.Process.Frame

/-!
# `process_malloc` and `process_free`

An allocation of a process stands in three places: the block table of the heap, the table of the
process, and the page entries of its directory. `LiveChain entries a b n`: the record `a` is the
chain of `n` blocks from `b` on, which hold its bytes. `HeldDir` is the directory of a running process: chunk,
directory and tables are in blocks that are taken, so no allocation meets them.

`processMalloc_spec` says what `process_malloc` does to the three where a run of blocks and a slot
are free; `processFree_spec` what `process_free` does for a recorded pointer, and
`processFree_unrecorded` for any other one. A null pointer finds an empty slot: it is released like
an allocation of no bytes.
-/

namespace Pandora

open ByteMem

/-- The record `a` is the chain of `n` blocks from `b` on (module doc). -/
structure LiveChain (entries : Nat → UInt8) (a : ProcessAllocation) (b n : Nat) : Prop where
  ptr : a.ptr = blockAddr b
  size : a.size ≤ 4096 * n
  inside : b + n ≤ 25600
  chain : IsChain entries 25600 b n

/-- The page `page` holds one of the bytes of the record `a`. -/
def ProcessAllocation.Covers (a : ProcessAllocation) (page : Nat) : Prop :=
  a.ptr < 4096 * (page + 1) ∧ 4096 * page < a.ptr + a.size

/-- A page of a record is a block that is taken. -/
theorem LiveChain.not_free {entries : Nat → UInt8} {a : ProcessAllocation} {b n page : Nat}
    (h : LiveChain entries a b n) (hp : a.Covers page) :
    4096 ≤ page ∧ ¬ Free (entries (page - 4096)) := by
  have hin := h.inside
  have hsize := h.size
  obtain ⟨h1, h2⟩ := hp
  rw [h.ptr] at h1 h2
  unfold blockAddr at h1 h2
  exact ⟨by omega, h.chain.not_free (by omega) (by omega) (by omega)⟩

section

variable {σ : Type} {K K' : Kernel σ} {process dir f size : Nat} {table : Nat → Nat}

/-- The directory of a process, in blocks that are taken. -/
structure HeldDir (K : Kernel σ) (process dir f : Nat) (table : Nat → Nat) : Prop
    extends ProcessDir K process dir f table where
  heap : K.kmem.heap.Kernel
  chunkWindow : InWindow (K.queue.task (K.processAt process).task).pageDirectory
  chunkTaken : ¬ Free (K.entries (blockOf (K.queue.task (K.processAt process).task).pageDirectory))
  dirTaken : ¬ Free (K.entries (blockOf dir))
  tableTaken : ∀ i < 1024, ¬ Free (K.entries (blockOf (table i)))

/-! ## The table of a process -/

theorem processFindFreeAllocationIndex_of {p : Process}
    (h : ∃ i < maxProgramAllocations, (p.allocations i).ptr = 0) :
    ∃ i < maxProgramAllocations, processFindFreeAllocationIndex p = i ∧
      (p.allocations i).ptr = 0 ∧ ∀ j < i, (p.allocations j).ptr ≠ 0 := by
  unfold processFindFreeAllocationIndex
  cases hf : (List.range maxProgramAllocations).find? fun i => (p.allocations i).ptr = 0 with
  | some i =>
    obtain ⟨hi, hlt, hbefore⟩ := List.find?_range_eq_some.1 hf
    exact ⟨i, List.mem_range.1 hlt, rfl, of_decide_eq_true hi, fun j hj => by simpa using hbefore j hj⟩
  | none =>
    obtain ⟨i, hi, hzero⟩ := h
    have := List.find?_eq_none.1 hf i (List.mem_range.2 hi)
    simp [hzero] at this

theorem processFindFreeAllocationIndex_none {p : Process}
    (h : ∀ i < maxProgramAllocations, (p.allocations i).ptr ≠ 0) :
    processFindFreeAllocationIndex p = -enomem := by
  unfold processFindFreeAllocationIndex
  cases hf : (List.range maxProgramAllocations).find? fun i => (p.allocations i).ptr = 0 with
  | none => rfl
  | some i =>
    obtain ⟨hi, hlt, -⟩ := List.find?_range_eq_some.1 hf
    exact absurd (of_decide_eq_true hi) (h i (List.mem_range.1 hlt))

theorem processGetAllocationByAddr_cases (p : Process) (addr : Nat) :
    (∃ i < maxProgramAllocations, processGetAllocationByAddr p addr = some i ∧
      (p.allocations i).ptr = addr) ∨
    (processGetAllocationByAddr p addr = none ∧
      ∀ i < maxProgramAllocations, (p.allocations i).ptr ≠ addr) := by
  unfold processGetAllocationByAddr
  cases hf : (List.range maxProgramAllocations).find? fun i => (p.allocations i).ptr = addr with
  | some i =>
    obtain ⟨hi, hlt, -⟩ := List.find?_range_eq_some.1 hf
    exact .inl ⟨i, List.mem_range.1 hlt, rfl, of_decide_eq_true hi⟩
  | none =>
    refine .inr ⟨rfl, fun i hi => ?_⟩
    have := List.find?_eq_none.1 hf i (List.mem_range.2 hi)
    simpa using this

/-! ## Allocation -/

/-- A taken block lies on one side of a free run. -/
theorem InWindow.apart_run {entries : Nat → UInt8} {a b n : Nat} (ha : InWindow a)
    (htaken : ¬ Free (entries (blockOf a))) (hrun : FreeRun entries b n) :
    a + 4096 ≤ Pandora.blockAddr b ∨ Pandora.blockAddr b + 4096 * n ≤ a := by
  obtain ⟨hlt, haddr⟩ := ha.blockAddr
  have hout : blockOf a < b ∨ b + n ≤ blockOf a := by
    by_contra hc
    have := hrun (blockOf a - b) (by omega)
    rw [show b + (blockOf a - b) = blockOf a by omega] at this
    exact htaken this
  unfold Pandora.blockAddr at haddr ⊢
  omega

/-- A word of a taken block survives the zeroing of free ones. -/
theorem take_apply {k : Kmem} {b n size a x : Nat} (hb : b + n ≤ 25600) (hn : size ≤ 4096 * n)
    (hrun : FreeRun k.heap.table.entries b n) (ha : InWindow a)
    (htaken : ¬ Free (k.heap.table.entries (blockOf a))) (hx : a ≤ x) (hx' : x < a + 4096) :
    (k.take b n size).mem x = k.mem x := by
  have hapart := ha.apart_run htaken hrun
  have hhi := ha.hi
  have hend : blockAddr b + size ≤ 2 ^ 32 := by
    unfold blockAddr
    omega
  rw [take_mem]
  exact fill_apply_of_outside hend (by omega) (by omega)

/-- A taken block keeps its bytes when free ones are zeroed. -/
theorem take_sameBlock {k : Kmem} {b j n : Nat} (hj : j < 25600)
    (htaken : ¬ Free (k.heap.table.entries j)) (hb : b + n ≤ 25600)
    (hrun : FreeRun k.heap.table.entries b n) (hsize : size ≤ 4096 * n) :
    SameBlock k.mem (k.take b n size).mem j := fun x hx hx' => by
  have hblock : blockOf (blockAddr j) = j := by
    unfold blockOf blockAddr
    omega
  exact take_apply hb hsize hrun (inWindow_blockAddr hj) (hblock.symm ▸ htaken) hx hx'

/-- The directory after blocks that were free are taken and zeroed. -/
theorem HeldDir.take (h : HeldDir K process dir f table) {b n : Nat} (hb : b + n ≤ 25600)
    (hn : size ≤ 4096 * n) (hrun : FreeRun K.entries b n) :
    ProcessDir { K with kmem := K.kmem.take b n size } process dir f table ∧
      ∀ p < 2 ^ 20, pageEntry (K.kmem.take b n size).mem table p = pageEntry K.mem table p := by
  refine ⟨⟨?_, ?_, ?_⟩, fun p hp => ?_⟩
  · exact h.pageDir.congr fun x hx hx' =>
      take_apply hb hn hrun h.pageDir.dirWindow h.dirTaken hx hx'
  · refine (read32_congr fun j hj => ?_).trans h.chunk.directory
    exact take_apply hb hn hrun h.chunkWindow h.chunkTaken (by simp) (by simp; omega)
  · exact h.chunk.apart
  · exact pageEntry_congr hp fun i hi x hx hx' =>
      take_apply hb hn hrun (h.pageDir.window i hi) (h.tableTaken i hi) hx hx'

/-- With all slots used the call fails, whatever `kzalloc` answers. -/
theorem processMalloc_full (h : ∀ i < maxProgramAllocations,
    ((K.processAt process).allocations i).ptr ≠ 0) : (processMalloc K process size).1 = 0 := by
  have hindex := processFindFreeAllocationIndex_none h
  obtain ⟨p, K₁, hr⟩ : ∃ p K₁, K.kzalloc size = (p, K₁) := ⟨_, _, rfl⟩
  have hproc : K₁.processAt = K.processAt := by
    have : (K.kzalloc size).2.processAt = K.processAt := rfl
    rwa [hr] at this
  unfold processMalloc
  rw [hr]
  dsimp only
  split
  · rfl
  · rw [hproc, hindex, if_pos (show -enomem < 0 by decide)]

/-- What `process_malloc` leaves when it takes the blocks from `b` on and the slot `i`. -/
structure Malloced (K K' : Kernel σ) (process size dir f : Nat) (table : Nat → Nat) (b i : Nat) :
    Prop where
  fits : b + blocksFor size ≤ 25600
  free : FreeRun K.entries b (blocksFor size)
  first : ∀ s < b, ¬ FreeRun K.entries s (blocksFor size)
  slot : i < maxProgramAllocations
  empty : ((K.processAt process).allocations i).ptr = 0
  lowest : ∀ j < i, ((K.processAt process).allocations j).ptr ≠ 0
  state : K' = { K with
    kmem := K'.kmem
    processAt := Function.update K.processAt process
      ((K.processAt process).setAllocation i ⟨blockAddr b, size⟩) }
  heap : K'.kmem.heap = heapMarkBlocksTaken K.kmem.heap b (blocksFor size)
  pageDir : PageDir K'.mem dir f table
  pages : ∀ p < 2 ^ 20, pageEntry K'.mem table p =
    if 4096 + b ≤ p ∧ p < 4096 + b + blocksFor size then 4096 * p ||| pagingUserWriteable
    else pageEntry K.mem table p
  zero : ∀ x, blockAddr b ≤ x → x < blockAddr b + size → K'.mem x = 0
  frame : ∀ x < 2 ^ 32, OutsideTables table x → (x < blockAddr b ∨ blockAddr b + size ≤ x) →
    K'.mem x = K.mem x

/-- The pages of the blocks from `b` on. -/
theorem page_mem_iff {v b n : Nat} :
    4096 + b ≤ v / 4096 ∧ v / 4096 < 4096 + b + n ↔
      blockAddr b ≤ v ∧ v < blockAddr b + 4096 * n := by
  unfold blockAddr
  omega

/-- `process_malloc` where a run of blocks and a slot are free. -/
theorem processMalloc_spec (h : HeldDir K process dir f table) (h1 : 1 ≤ size)
    (h2 : size ≤ 2 ^ 32 - 4096) (hrun : HasRun K.entries 25600 (blocksFor size))
    (hslot : ∃ i < maxProgramAllocations, ((K.processAt process).allocations i).ptr = 0) :
    ∃ b i K', processMalloc K process size = (blockAddr b, K') ∧
      Malloced K K' process size dir f table b i := by
  have hpos := blocksFor_pos h1
  have hle := le_blocksFor size
  have hshort : ¬ K.kmem.heap.RunsShort (blocksFor size) := fun hs => by
    have hno := hs.1
    rw [h.heap.total] at hno
    exact hno hrun
  rcases kzalloc_served h.heap h1 h2 hshort with ⟨b, hb, hfree, hfirst, he⟩ | ⟨-, hno⟩
  case inr => exact absurd hrun hno
  obtain ⟨hdir, hentries⟩ := h.take hb hle hfree
  obtain ⟨i, hi, hindex, hempty, hlowest⟩ := processFindFreeAllocationIndex_of hslot
  obtain ⟨K₁, hK₁⟩ : ∃ K₁, ({ K with kmem := K.kmem.take b (blocksFor size) size } : Kernel σ) = K₁ :=
    ⟨_, rfl⟩
  have hz : K.kzalloc size = (blockAddr b, K₁) := by
    unfold Kernel.kzalloc
    rw [he]
    exact congrArg (Prod.mk _) hK₁
  rw [hK₁] at hdir
  have hmem₁ : K₁.mem = (K.kmem.take b (blocksFor size) size).mem := by rw [← hK₁]; rfl
  have hproc₁ : K₁.processAt = K.processAt := by rw [← hK₁]
  -- the end of the pages is the end of the blocks
  have haddr : blockAddr b = 4096 * (4096 + b) := by unfold blockAddr; omega
  have hadd : Word.add (blockAddr b) size = blockAddr b + size := Word.add_of_lt (by omega)
  have hend : pagingAlignAddress (Word.add (blockAddr b) size) =
      4096 * (4096 + b + blocksFor size) := by
    rw [hadd, pagingAlignAddress_eq (by omega), haddr]
    unfold blocksFor
    omega
  have hal : blockAddr b % 4096 = 0 := by omega
  have hlt : blockAddr b < 2 ^ 32 := by omega
  have hendal : pagingAlignAddress (Word.add (blockAddr b) size) % 4096 = 0 := by omega
  have hendle : blockAddr b ≤ pagingAlignAddress (Word.add (blockAddr b) size) := by omega
  have hendlt : pagingAlignAddress (Word.add (blockAddr b) size) < 2 ^ 32 := by omega
  have hflags : pagingUserWriteable < 4096 := by decide
  obtain ⟨K₂, hmap, hk, hm⟩ := Kernel.mapTo_spec hdir hal hal hendal hendle hlt hendlt hflags
  have hkeq : K₂ = { K with kmem := K₂.kmem } := by
    have := hk.eq
    rwa [← hK₁] at this
  have hproc₂ : K₂.processAt = K.processAt := hk.processAt.trans hproc₁
  refine ⟨b, i, K₂.setProcess process ((K₂.processAt process).setAllocation i ⟨blockAddr b, size⟩),
    ?_, hb, hfree, hfirst, hi, hempty, hlowest, ?_, ?_, ?_, fun p hp => ?_, fun x hx hx' => ?_,
    fun x hx hout hx' => ?_⟩
  · unfold processMalloc
    rw [hz]
    dsimp only
    rw [if_neg (blockAddr_ne_zero b), hproc₁, hindex, if_neg (show ¬ (i : Int) < 0 by omega), hmap,
      Int.toNat_natCast]
    exact if_neg (show ¬ allOk < 0 by decide)
  · unfold Kernel.setProcess
    rw [hproc₂]
    exact congrArg (fun k : Kernel σ => { k with
      processAt := Function.update K.processAt process
        ((K.processAt process).setAllocation i ⟨blockAddr b, size⟩) }) hkeq
  · exact hk.heap.trans (by rw [← hK₁]; rfl)
  · exact hm.pageDir
  · refine (hm.entries p hp).trans ?_
    have hcount : (pagingAlignAddress (Word.add (blockAddr b) size) - blockAddr b) / 4096 =
        blocksFor size := by omega
    unfold mapped pageIndex
    rw [hcount, hmem₁, hentries p hp]
    by_cases hin : 4096 + b ≤ p ∧ p < 4096 + b + blocksFor size
    · have hpage : blockAddr b + 4096 * ((p + 2 ^ 20 - blockAddr b / 4096) % 2 ^ 20) = 4096 * p := by
        omega
      rw [if_pos hin, if_pos (by omega), Word.add_of_lt (by omega), hpage]
    · rw [if_neg hin, if_neg (by omega)]
  · have houtside : OutsideTables table x := fun t ht => by
      have := (h.pageDir.window t ht).apart_run (h.tableTaken t ht) hfree
      omega
    refine (hm.outside x houtside).trans ?_
    rw [hmem₁, take_mem]
    exact fill_apply_of_mem (by omega) hx hx'
  · refine (hm.outside x hout).trans ?_
    rw [hmem₁, take_mem]
    exact fill_apply_of_outside (by omega) hx hx'

theorem Malloced.directory {b i : Nat} (h : Malloced K K' process size dir f table b i)
    (hd : HeldDir K process dir f table) : ProcessDir K' process dir f table where
  pageDir := h.pageDir
  chunk := by
    have hchunk : (K'.queue.task (K'.processAt process).task).pageDirectory =
        (K.queue.task (K.processAt process).task).pageDirectory := by
      rw [h.state]
      simp [Process.setAllocation]
    rw [hchunk]
    have hapart := hd.chunkWindow.apart_run hd.chunkTaken h.free
    have hhi := hd.chunkWindow.hi
    have hle := le_blocksFor size
    refine ⟨(read32_congr fun j hj => h.frame _ (by omega) (fun t ht => ?_) ?_).trans
      hd.chunk.directory, hd.chunk.apart⟩
    · have := hd.chunk.apart t ht
      omega
    · omega

/-- `process_malloc` takes the first run of blocks from `b` on, records it in the lowest free slot `i`,
maps its pages and no others, for the user and writable, and zeroes its bytes; no record of before
has one of its pages. -/
structure MallocMaps (K K' : Kernel σ) (process size b i : Nat) : Prop where
  firstFit : b + blocksFor size ≤ 25600 ∧ FreeRun K.entries b (blocksFor size) ∧
    ∀ s < b, ¬ FreeRun K.entries s (blocksFor size)
  lowest : i < maxProgramAllocations ∧ ((K.processAt process).allocations i).ptr = 0 ∧
    ∀ j < i, ((K.processAt process).allocations j).ptr ≠ 0
  recorded : ∀ j, (K'.processAt process).allocations j =
    if j = i then ⟨blockAddr b, size⟩ else (K.processAt process).allocations j
  pages : ∀ v < 2 ^ 32, K'.pageOf process v =
    if blockAddr b ≤ v ∧ v < blockAddr b + 4096 * blocksFor size then
      v / 4096 * 4096 ||| (pagingIsWriteable ||| pagingIsPresent ||| pagingAccessFromAll)
    else K.pageOf process v
  zero : ∀ x, blockAddr b ≤ x → x < blockAddr b + size → K'.mem x = 0
  fresh : ∀ j < maxProgramAllocations, ((K.processAt process).allocations j).ptr ≠ 0 → ∀ page,
    ¬ (((K.processAt process).allocations j).Covers page ∧
      ProcessAllocation.Covers ⟨blockAddr b, size⟩ page)

/-- **`process_malloc` maps exactly what the heap reserved.** -/
theorem process_malloc_maps (hd : HeldDir K process dir f table)
    (hlive : ∀ j < maxProgramAllocations, ((K.processAt process).allocations j).ptr ≠ 0 →
      ∃ b n, LiveChain K.entries ((K.processAt process).allocations j) b n)
    (hslot : ∃ i < maxProgramAllocations, ((K.processAt process).allocations i).ptr = 0)
    (h1 : 1 ≤ size) (h2 : size ≤ 2 ^ 32 - 4096)
    (hrun : HasRun K.entries 25600 (blocksFor size)) :
    ∃ b i K', processMalloc K process size = (blockAddr b, K') ∧
      MallocMaps K K' process size b i := by
  have hle := le_blocksFor size
  obtain ⟨b, i, K', hr, hm⟩ := processMalloc_spec hd h1 h2 hrun hslot
  have hfits := hm.fits
  refine ⟨b, i, K', hr, ⟨hm.fits, hm.free, hm.first⟩, ⟨hm.slot, hm.empty, hm.lowest⟩,
    fun j => ?_, fun v hv => ?_, hm.zero, ?_⟩
  · rw [hm.state]
    simp [Process.setAllocation, Function.update_apply]
  · rw [(hm.directory hd).reads.1 v hv, hd.toProcessDir.reads.1 v hv, hm.pages _ (by omega)]
    simp only [page_mem_iff]
    rw [Nat.mul_comm (v / 4096) 4096]
    rfl
  · -- a page of the new record is a block that was free
    rintro j hj hne page ⟨hold, hnew, hnew'⟩
    obtain ⟨b', n', hchain⟩ := hlive j hj hne
    obtain ⟨hpage, htaken⟩ := hchain.not_free hold
    dsimp only at hnew hnew'
    unfold blockAddr at hnew hnew'
    have := hm.free (page - 4096 - b) (by omega)
    rw [show b + (page - 4096 - b) = page - 4096 by omega] at this
    exact htaken this

/-! ## Release -/

variable {p i b : Nat}

/-- A pointer that no slot has. -/
theorem processFree_foreign (h : ∀ i < maxProgramAllocations,
    ((K.processAt process).allocations i).ptr ≠ p) : processFree K process p = K := by
  rcases processGetAllocationByAddr_cases (K.processAt process) p with ⟨i, hi, -, hp⟩ | ⟨he, -⟩
  · exact absurd hp (h i hi)
  · unfold processFree
    rw [he]

/-- An empty range is mapped without a write. -/
theorem Kernel.mapTo_empty (K : Kernel σ) (process : Nat) {a : Nat} (ha : a % 4096 = 0)
    (hlt : a < 2 ^ 32) (flags : Nat) :
    ∃ K', K.mapTo process a a a flags = (allOk, K') ∧ K.MemOnly K' ∧ K'.mem = K.mem := by
  obtain ⟨task, htask⟩ : ∃ task, (K.processAt process).task = task := ⟨_, rfl⟩
  obtain ⟨pd, hpd⟩ : ∃ pd, (K.queue.task task).pageDirectory = pd := ⟨_, rfl⟩
  have hmem : ((K.follow task).follow pd).mem = K.mem := by
    unfold Kernel.follow Kernel.mem
    rw [follow_mem, follow_mem]
  have hpd' : ((K.follow task).queue.task task).pageDirectory = pd := hpd
  have hmap : pagingMapTo K.mem pd a a a flags = (allOk, K.mem) := by
    rw [pagingMapTo_eq ha ha ha (Nat.le_refl a) hlt, Nat.sub_self]
    rfl
  refine ⟨{ K with kmem := { ((K.follow task).follow pd).kmem with mem := K.mem } }, ?_, ⟨rfl, ?_⟩,
    rfl⟩
  · unfold Kernel.mapTo
    dsimp only
    rw [htask, hpd', hmem, hmap]
    rfl
  · unfold Kernel.follow
    dsimp only
    rw [follow_heap, follow_heap]

/-- Freeing null frees no block. -/
theorem heapFree_zero {heap : Heap} (hk : heap.Kernel) : heapFree heap 0 = heap := by
  have hout := freedBlock_zero
  unfold freedBlock at hout
  unfold heapFree heapAddressToBlock
  rw [hk.saddr]
  exact markBlocksFree_outside (by rw [hk.total]; exact hout)

/-- A null pointer finds an empty slot, if there is one, and releases nothing. -/
theorem processFree_null (hk : K.kmem.heap.Kernel)
    (hempty : ∀ i < maxProgramAllocations, ((K.processAt process).allocations i).ptr = 0 →
      (K.processAt process).allocations i = {}) :
    processFree K process 0 = { K with kmem := (processFree K process 0).kmem } ∧
      (processFree K process 0).kmem.heap = K.kmem.heap ∧ (processFree K process 0).mem = K.mem := by
  rcases processGetAllocationByAddr_cases (K.processAt process) 0 with ⟨i, hi, he, hp⟩ | ⟨he, -⟩
  · have hrecord := hempty i hi hp
    have hend : pagingAlignAddress (Word.add ((K.processAt process).allocations i).ptr
        ((K.processAt process).allocations i).size) = 0 := by
      rw [hrecord, Word.add_of_lt (by decide)]
      rfl
    obtain ⟨K₁, hmap, hmemOnly, hmem⟩ := K.mapTo_empty process (a := 0) rfl (by decide) 0
    have hproc : K₁.processAt = K.processAt := hmemOnly.processAt
    have hunjoin : processAllocationUnjoin (K.processAt process) 0 = K.processAt process := by
      have hslots : (fun j => if j < maxProgramAllocations ∧
          ((K.processAt process).allocations j).ptr = 0 then ({} : ProcessAllocation)
          else (K.processAt process).allocations j) = (K.processAt process).allocations := by
        funext j
        by_cases hj : j < maxProgramAllocations ∧ ((K.processAt process).allocations j).ptr = 0
        · rw [if_pos hj, hempty j hj.1 hj.2]
        · rw [if_neg hj]
      unfold processAllocationUnjoin
      rw [hslots]
    have hfree : processFree K process 0 = K₁.kfree 0 := by
      unfold processFree
      rw [he]
      dsimp only
      rw [hend, hp, hmap]
      dsimp only
      rw [if_neg (by decide), hproc, hunjoin]
      unfold Kernel.setProcess
      rw [hproc, Function.update_eq_self, ← hproc]
    rw [hfree]
    refine ⟨?_, ?_, ?_⟩
    · unfold Kernel.kfree
      exact congrArg (fun k : Kernel σ => { k with kmem := Pandora.kfree K₁.kmem 0 }) hmemOnly.eq
    · unfold Kernel.kfree Pandora.kfree
      dsimp only
      rw [follow_heap, hmemOnly.heap, heapFree_zero hk]
    · exact (follow_mem _ _).trans hmem
  · have hsame : processFree K process 0 = K := by
      unfold processFree
      rw [he]
    rw [hsame]
    exact ⟨rfl, rfl, rfl⟩

/-- The table of a process between calls: the recorded pointers are distinct, each is the chain that
holds its bytes, and the other slots are empty. -/
structure Records (K : Kernel σ) (process : Nat) : Prop where
  chain : ∀ i < maxProgramAllocations, ((K.processAt process).allocations i).ptr ≠ 0 →
    1 ≤ ((K.processAt process).allocations i).size ∧
    ∃ b, LiveChain K.entries ((K.processAt process).allocations i) b
      (blocksFor ((K.processAt process).allocations i).size)
  distinct : ∀ i < maxProgramAllocations, ∀ j < maxProgramAllocations,
    ((K.processAt process).allocations i).ptr ≠ 0 →
    ((K.processAt process).allocations i).ptr = ((K.processAt process).allocations j).ptr → i = j
  empty : ∀ i < maxProgramAllocations, ((K.processAt process).allocations i).ptr = 0 →
    (K.processAt process).allocations i = {}

/-- What `process_free` leaves when it releases the slot `i`, whose record has the `n` blocks from `b`
on. -/
structure Released (K K' : Kernel σ) (process dir f : Nat) (table : Nat → Nat) (i b n : Nat) :
    Prop where
  state : K' = { K with
    kmem := K'.kmem
    processAt := Function.update K.processAt process ((K.processAt process).setAllocation i {}) }
  entries : ∀ j, K'.entries j = if b ≤ j ∧ j < b + n then entryFree else K.entries j
  mapped : Mapped K.mem K'.mem dir f table
    (mapped (pageEntry K.mem table) (4096 + b) (blockAddr b) n 0)

/-- The calls of `process_free` for a recorded pointer: its pages are unmapped, the record is cleared
and the blocks are freed. -/
theorem processFree_recorded (hd : ProcessDir K process dir f table) (hr : Records K process)
    (hi : i < maxProgramAllocations)
    (hchain : LiveChain K.entries ((K.processAt process).allocations i) b
      (blocksFor ((K.processAt process).allocations i).size)) :
    ∃ K₁, (K.mapTo process (blockAddr b) (blockAddr b) (pagingAlignAddress
        (Word.add (blockAddr b) ((K.processAt process).allocations i).size)) 0).2 = K₁ ∧
      K.MemOnly K₁ ∧ Mapped K.mem K₁.mem dir f table (mapped (pageEntry K.mem table) (4096 + b)
        (blockAddr b) (blocksFor ((K.processAt process).allocations i).size) 0) ∧
      processFree K process (blockAddr b) = (K₁.setProcess process
        ((K.processAt process).setAllocation i {})).kfree (blockAddr b) := by
  obtain ⟨a, ha⟩ : ∃ a, (K.processAt process).allocations i = a := ⟨_, rfl⟩
  rw [ha] at hchain ⊢
  have hptr : a.ptr = blockAddr b := hchain.ptr
  have hne : ((K.processAt process).allocations i).ptr ≠ 0 := by
    rw [ha, hptr]
    exact blockAddr_ne_zero b
  have hin := hchain.inside
  have hsize := hchain.size
  have haddr : blockAddr b = 4096 * (4096 + b) := by
    unfold blockAddr
    omega
  -- the lookup finds the slot
  have hfind : processGetAllocationByAddr (K.processAt process) (blockAddr b) = some i := by
    rcases processGetAllocationByAddr_cases (K.processAt process) (blockAddr b) with
      ⟨j, hj, he, hp⟩ | ⟨-, hno⟩
    · rw [he, hr.distinct i hi j hj hne (by rw [hp, ha, hptr])]
    · exact absurd (by rw [ha, hptr]) (hno i hi)
  have hunjoin : processAllocationUnjoin (K.processAt process) (blockAddr b) =
      (K.processAt process).setAllocation i {} := by
    have hslots : (fun j => if j < maxProgramAllocations ∧
        ((K.processAt process).allocations j).ptr = blockAddr b then ({} : ProcessAllocation)
        else (K.processAt process).allocations j) =
        Function.update (K.processAt process).allocations i {} := by
      funext j
      by_cases hji : j = i
      · rw [hji, Function.update_self, if_pos ⟨hi, by rw [ha, hptr]⟩]
      · rw [Function.update_of_ne hji]
        exact if_neg fun hj => hji (hr.distinct i hi j hj.1 hne (by rw [hj.2, ha, hptr])).symm
    unfold processAllocationUnjoin Process.setAllocation
    rw [hslots]
  -- the pages
  have hend : pagingAlignAddress (Word.add (blockAddr b) a.size) =
      4096 * (4096 + b + blocksFor a.size) := by
    have hadd : Word.add (blockAddr b) a.size = blockAddr b + a.size := Word.add_of_lt (by omega)
    rw [hadd, pagingAlignAddress_eq (by omega), haddr]
    unfold blocksFor
    omega
  have hal : blockAddr b % 4096 = 0 := by omega
  have hlt : blockAddr b < 2 ^ 32 := by omega
  have hendal : pagingAlignAddress (Word.add (blockAddr b) a.size) % 4096 = 0 := by omega
  have hendle : blockAddr b ≤ pagingAlignAddress (Word.add (blockAddr b) a.size) := by omega
  have hendlt : pagingAlignAddress (Word.add (blockAddr b) a.size) < 2 ^ 32 := by omega
  obtain ⟨K₁, hmap, hk₁, hm⟩ := Kernel.mapTo_spec hd hal hal hendal hendle hlt hendlt
    (show 0 < 4096 by decide)
  have hpage : blockAddr b / 4096 = 4096 + b := by omega
  have hcount : (pagingAlignAddress (Word.add (blockAddr b) a.size) - blockAddr b) / 4096 =
      blocksFor a.size := by omega
  rw [hpage, hcount] at hm
  refine ⟨K₁, by rw [hmap], hk₁, hm, ?_⟩
  unfold processFree
  rw [hfind]
  dsimp only
  rw [ha, hptr, hmap]
  dsimp only
  rw [if_neg (by decide), hk₁.processAt, hunjoin]

/-- `process_free` for a recorded pointer. -/
theorem processFree_spec (hd : ProcessDir K process dir f table) (hk : K.kmem.heap.Kernel)
    (hr : Records K process) (hi : i < maxProgramAllocations)
    (hchain : LiveChain K.entries ((K.processAt process).allocations i) b
      (blocksFor ((K.processAt process).allocations i).size)) :
    Released K (processFree K process (blockAddr b)) process dir f table i b
      (blocksFor ((K.processAt process).allocations i).size) := by
  obtain ⟨K₁, -, hk₁, hm, hfree⟩ := processFree_recorded hd hr hi hchain
  have hproc : K₁.processAt = K.processAt := hk₁.processAt
  have hin := hchain.inside
  obtain ⟨a, ha⟩ : ∃ a, (K.processAt process).allocations i = a := ⟨_, rfl⟩
  rw [ha] at hchain hin hm ⊢
  rw [hfree]
  refine ⟨?_, fun j => ?_, ?_⟩
  · unfold Kernel.kfree Kernel.setProcess
    rw [hproc]
    exact congrArg (fun k : Kernel σ => { k with
      kmem := Pandora.kfree K₁.kmem (blockAddr b)
      processAt := Function.update K.processAt process
        ((K.processAt process).setAllocation i {}) }) hk₁.eq
  · have hheap : K₁.kmem.heap.Kernel := by
      rw [hk₁.heap]
      exact hk
    have hc : IsChain K₁.kmem.heap.table.entries 25600 b (blocksFor a.size) := by
      rw [hk₁.heap]
      exact hchain.chain
    refine (kfree_chain hheap hc j).trans ?_
    rw [hk₁.heap]
    by_cases hj : b ≤ j ∧ j < b + blocksFor a.size
    · rw [if_pos (by omega), if_pos hj]
    · rw [if_neg (by omega), if_neg hj]
      rfl
  · have hmem : ((K₁.setProcess process ((K.processAt process).setAllocation i {})).kfree
        (blockAddr b)).mem = K₁.mem := follow_mem _ _
    rw [hmem]
    exact hm

theorem Released.directory {n : Nat} (h : Released K K' process dir f table i b n)
    (hd : ProcessDir K process dir f table) : ProcessDir K' process dir f table where
  pageDir := h.mapped.pageDir
  chunk := by
    have hchunk : (K'.queue.task (K'.processAt process).task).pageDirectory =
        (K.queue.task (K.processAt process).task).pageDirectory := by
      rw [h.state]
      simp [Process.setAllocation]
    rw [hchunk]
    exact hd.chunk.mapped h.mapped

/-- The pages after the release. -/
theorem Released.pageOf {n v : Nat} (h : Released K K' process dir f table i b n)
    (hd : ProcessDir K process dir f table) (hin : b + n ≤ 25600) (hv : v < 2 ^ 32) :
    K'.pageOf process v =
      if blockAddr b ≤ v ∧ v < blockAddr b + 4096 * n then v / 4096 * 4096 else K.pageOf process v := by
  rw [(h.directory hd).reads.1 v hv, hd.reads.1 v hv, h.mapped.entries _ (by omega)]
  unfold Pandora.mapped pageIndex
  simp only [← page_mem_iff]
  have haddr : blockAddr b = 4096 * (4096 + b) := by
    unfold blockAddr
    omega
  by_cases hp : 4096 + b ≤ v / 4096 ∧ v / 4096 < 4096 + b + n
  · have hpage : blockAddr b + 4096 * ((v / 4096 + 2 ^ 20 - (4096 + b)) % 2 ^ 20) =
        v / 4096 * 4096 := by omega
    rw [if_pos (by omega), if_pos hp, Word.add_of_lt (by omega), hpage, Nat.or_zero]
  · rw [if_neg (by omega), if_neg hp]

/-- Only ghosts have changed. -/
structure Kernel.Unchanged (K K' : Kernel σ) : Prop where
  state : K' = { K with kmem := K'.kmem }
  heap : K'.kmem.heap = K.kmem.heap
  mem : K'.mem = K.mem

/-- The record of `p` in the slot `i` is gone, its chain is free, its pages are not present, and
nothing else has changed. -/
structure FreesExactly (K K' : Kernel σ) (process i p : Nat) (table : Nat → Nat) : Prop where
  state : K' = { K with
    kmem := K'.kmem
    processAt := Function.update K.processAt process ((K.processAt process).setAllocation i {}) }
  entries : ∀ j, K'.entries j =
    if blockOf p ≤ j ∧ j < blockOf p + blocksFor ((K.processAt process).allocations i).size then
      entryFree
    else K.entries j
  pages : ∀ v < 2 ^ 32,
    if p ≤ v ∧ v < p + 4096 * blocksFor ((K.processAt process).allocations i).size then
      K'.pageOf process v &&& pagingIsPresent = 0
    else K'.pageOf process v = K.pageOf process v
  outside : ∀ x, OutsideTables table x → K'.mem x = K.mem x

/-- **Freeing through `process_free` is exact**, for every pointer. -/
theorem process_free_exact (hd : ProcessDir K process dir f table) (hk : K.kmem.heap.Kernel)
    (hr : Records K process) (p : Nat) :
    ((p = 0 ∨ ∀ i < maxProgramAllocations, ((K.processAt process).allocations i).ptr ≠ p) →
      K.Unchanged (processFree K process p)) ∧
    ∀ i < maxProgramAllocations, ((K.processAt process).allocations i).ptr = p → p ≠ 0 →
      FreesExactly K (processFree K process p) process i p table := by
  refine ⟨fun hp => ?_, fun i hi hp hne => ?_⟩
  · rcases hp with rfl | hp
    · obtain ⟨hstate, hheap, hmem⟩ := processFree_null hk hr.empty
      exact ⟨hstate, hheap, hmem⟩
    · rw [processFree_foreign hp]
      exact ⟨rfl, rfl, rfl⟩
  · obtain ⟨-, b, hchain⟩ := hr.chain i hi (by rw [hp]; exact hne)
    obtain rfl : p = blockAddr b := hp.symm.trans hchain.ptr
    have hspec := processFree_spec hd hk hr hi hchain
    have hblock : blockOf (blockAddr b) = b := by
      unfold blockOf blockAddr
      omega
    refine ⟨hspec.state, fun j => ?_, fun v hv => ?_, hspec.mapped.outside⟩
    · rw [hblock]
      exact hspec.entries j
    · have hpage := hspec.pageOf hd hchain.inside hv
      split
      · rename_i hin
        rw [hpage, if_pos hin]
        exact and_of_aligned (by omega) (by decide)
      · rename_i hout
        rw [hpage, if_neg hout]

end

/-- The directory, its tables, the chunk, and one allocation of 100 bytes, in the first 1027 blocks. -/
def heldKernel : Kernel Unit where
  kmem := {
    heap := {
      saddr := 0x01000000
      table := {
        entries := fun i => if i < 1027 then entryTaken ||| isFirst else entryFree
        total := 25600 } }
    mem := fun x =>
      if 0x01000000 ≤ x ∧ x < 0x01001000 then byte (blockAddr ((x - 0x01000000) / 4 + 1) + 7) (x % 4)
      else if x < 0x01401004 then byte 0x01000000 (x % 4)
      else 1 }
  queue := {
    task := fun _ => { pageDirectory := blockAddr 1025 }
    head := 0
    tail := 0
    current := 0 }
  processAt := fun _ => {
    task := 1
    allocations := fun i => if i = 0 then ⟨blockAddr 1026, 100⟩ else {} }
  elfFileAt := fun _ => {}
  processes := fun _ => 0
  currentProcess := 0
  files := ()

theorem heldKernel_taken {i : Nat} (h : i < 1027) : ¬ Free (heldKernel.entries i) := by
  have : heldKernel.entries i = entryTaken ||| isFirst := if_pos h
  rw [this]
  decide

theorem heldKernel_dir : HeldDir heldKernel 2 0x01000000 7 (fun i => blockAddr (i + 1)) where
  pageDir := firstBlocks_pageDir fun x hx hx' => if_pos ⟨hx, hx'⟩
  chunk := {
    directory := read32_of_bytes (by decide) fun j hj => by
      have hmod : (0x01401000 + j) % 4 = j := by omega
      have hmem : heldKernel.mem (0x01401000 + j) = byte 0x01000000 ((0x01401000 + j) % 4) :=
        (if_neg (by omega)).trans (if_pos (by omega))
      rw [hmod] at hmem
      exact hmem
    apart := fun i hi => by
      refine .inr ?_
      change blockAddr (i + 1) + 4096 ≤ blockAddr 1025
      unfold blockAddr
      omega }
  heap := ⟨rfl, rfl⟩
  chunkWindow := inWindow_blockAddr (b := 1025) (by decide)
  chunkTaken := heldKernel_taken (i := 1025) (by decide)
  dirTaken := heldKernel_taken (i := 0) (by decide)
  tableTaken := fun i hi => by
    have hblock : blockOf (blockAddr (i + 1)) = i + 1 := by
      unfold blockOf blockAddr
      omega
    rw [hblock]
    exact heldKernel_taken (by omega)

theorem heldKernel_chain : LiveChain heldKernel.entries ⟨blockAddr 1026, 100⟩ 1026 1 where
  ptr := rfl
  size := by decide
  inside := by decide
  chain := ⟨by decide, by decide, fun k hk _ => by
    obtain rfl : k = 0 := by omega
    decide⟩

theorem heldKernel_allocation {i : Nat}
    (h : ((heldKernel.processAt 2).allocations i).ptr ≠ 0) : i = 0 := by
  by_contra hi
  exact h (by simp [heldKernel, hi])

theorem heldKernel_records : Records heldKernel 2 where
  chain := fun i _ hne => by
    obtain rfl := heldKernel_allocation hne
    exact ⟨by decide, 1026, heldKernel_chain⟩
  distinct := fun i _ j _ hne he => by
    have hi := heldKernel_allocation hne
    rw [he] at hne
    exact hi.trans (heldKernel_allocation hne).symm
  empty := fun i _ hzero => by
    by_cases hi : i = 0
    · rw [hi] at hzero
      exact absurd hzero (blockAddr_ne_zero 1026)
    · exact if_neg hi

theorem process_malloc_maps_two :
    ∃ b i K', processMalloc heldKernel 2 5000 = (blockAddr b, K') ∧
      MallocMaps heldKernel K' 2 5000 b i := by
  refine process_malloc_maps heldKernel_dir (fun j _ hne => ?_) ⟨1, by decide, rfl⟩ (by decide)
    (by decide) ⟨1027, by decide, fun k _ => ?_⟩
  · obtain rfl := heldKernel_allocation hne
    exact ⟨1026, 1, heldKernel_chain⟩
  · have : heldKernel.entries (1027 + k) = entryFree := if_neg (by omega)
    rw [this]
    exact free_entryFree

theorem process_free_exact_one :
    ((blockAddr 1026 = 0 ∨ ∀ i < maxProgramAllocations,
        ((heldKernel.processAt 2).allocations i).ptr ≠ blockAddr 1026) →
      heldKernel.Unchanged (processFree heldKernel 2 (blockAddr 1026))) ∧
    ∀ i < maxProgramAllocations, ((heldKernel.processAt 2).allocations i).ptr = blockAddr 1026 →
      blockAddr 1026 ≠ 0 →
      FreesExactly heldKernel (processFree heldKernel 2 (blockAddr 1026)) 2 i (blockAddr 1026)
        (fun i => blockAddr (i + 1)) :=
  process_free_exact heldKernel_dir.toProcessDir heldKernel_dir.heap heldKernel_records _

end Pandora
