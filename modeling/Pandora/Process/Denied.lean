import Pandora.Heap.Reached
import Pandora.Process.Malloc

/-!
# `process_malloc` that fails

`process_malloc` gives up where `kzalloc` answers null, where every slot of the process is used, and
where `paging_map_to` refuses; the last cannot happen for an address of the heap. In the second case
the blocks were taken and zeroed already: they were free, so neither the directory nor its tables are
in them, and `kfree` gives every entry its value back (`kfree_take_entries`).
-/

namespace Pandora

open ByteMem

section

variable {σ : Type} {K K' : Kernel σ} {process dir f size b n : Nat} {table : Nat → Nat}

/-- The table of the process, its page directory and the block table are what they were. -/
structure AsBefore (K K' : Kernel σ) (process dir : Nat) (table : Nat → Nat) : Prop where
  state : K' = { K with kmem := K'.kmem }
  blocks : ∀ j, K'.entries j = K.entries j
  directory : ∀ x, dir ≤ x → x < dir + 4096 → K'.mem x = K.mem x
  tables : ∀ i < 1024, ∀ x, table i ≤ x → x < table i + 4096 → K'.mem x = K.mem x
  pages : ∀ v < 2 ^ 32, K'.pageOf process v = K.pageOf process v

/-- An allocation of a heap that runs short is not null. -/
theorem kzalloc_ne_zero_of_short (hk : K.kmem.heap.Kernel) (h1 : 1 ≤ size)
    (h2 : size ≤ 2 ^ 32 - 4096) (hshort : K.kmem.heap.RunsShort (blocksFor size)) :
    (K.kzalloc size).1 ≠ 0 := by
  have hn := blocksFor_pos h1
  have hm := heapMallocBlocks_spec K.kmem.heap (blocksFor size)
  have haddr : ∀ s < 25600, heapBlockToAddress K.kmem.heap s ≠ 0 := fun s hs => by
    rw [hk.blockToAddress hs]
    exact blockAddr_ne_zero s
  have hne : (heapMallocBlocks K.kmem.heap (blocksFor size)).1 ≠ 0 := by
    obtain ⟨hno, htot, hlast⟩ := hshort
    generalize heapMallocBlocks K.kmem.heap (blocksFor size) = r at hm ⊢
    cases hm with
    | found s _ hs hrun _ => exact absurd ⟨s, hs, hrun⟩ hno
    | short s hs _ _ _ =>
      rw [hk.total] at hs
      exact haddr s hs
    | none hl _ =>
      rcases hl with hl | hl
      · exact absurd hl htot
      · exact absurd hlast hl
  have hmalloc : heapMalloc K.kmem.heap size = _ := heapMalloc_eq h2
  unfold Kernel.kzalloc Pandora.kzalloc kmalloc
  dsimp only
  rw [hmalloc, if_neg hne]
  exact hne

/-- Blocks that were free, taken for the process and given back. -/
theorem HeldDir.take_back (hd : HeldDir K process dir f table) (hs : K.kmem.heap.Sound) (hn : 1 ≤ n)
    (hb : b + n ≤ 25600) (hsize : size ≤ 4096 * n) (hrun : FreeRun K.entries b n)
    (hK' : K' = { K with kmem := kfree (K.kmem.take b n size) (blockAddr b) }) :
    AsBefore K K' process dir table := by
  obtain ⟨hdir, hpages⟩ := hd.take hb hsize hrun
  have hmem : K'.mem = (K.kmem.take b n size).mem := by
    rw [hK']
    exact follow_mem _ _
  have hkept : ∀ a, InWindow a → ¬ Free (K.entries (blockOf a)) → ∀ x, a ≤ x → x < a + 4096 →
      K'.mem x = K.mem x := fun a ha htaken x hx hx' => by
    rw [hmem]
    exact take_apply hb hsize hrun ha htaken hx hx'
  have hdir' : ProcessDir K' process dir f table := by
    refine ⟨?_, ?_⟩
    · rw [hmem]
      exact hdir.pageDir
    · rw [hmem, hK']
      exact hdir.chunk
  refine ⟨?_, fun j => ?_, hkept dir hd.pageDir.dirWindow hd.dirTaken,
    fun i hi => hkept (table i) (hd.pageDir.window i hi) (hd.tableTaken i hi), fun v hv => ?_⟩
  · rw [hK']
  · rw [hK']
    exact congrFun (kfree_take_entries hs hn hb hrun rfl) j
  · rw [hdir'.reads.1 v hv, hd.toProcessDir.reads.1 v hv, hmem]
    exact hpages _ (by omega)

/-- **A `process_malloc` that fails changes nothing**, where `kzalloc` answered null or a run of blocks
was long enough. -/
theorem process_malloc_fails_clean (hd : HeldDir K process dir f table)
    (hreach : K.kmem.heap.Reached) (h1 : 1 ≤ size) (h2 : size ≤ 2 ^ 32 - 4096)
    (hserved : (K.kzalloc size).1 = 0 ∨ HasRun K.entries 25600 (blocksFor size))
    (hfail : (processMalloc K process size).1 = 0) :
    AsBefore K (processMalloc K process size).2 process dir table := by
  have hs := hreach.sound
  have hshort : ¬ K.kmem.heap.RunsShort (blocksFor size) := fun hshort => by
    rcases hserved with hnull | hrun
    · exact kzalloc_ne_zero_of_short hs.toKernel h1 h2 hshort hnull
    · have hno := hshort.1
      rw [hs.total] at hno
      exact hno hrun
  rcases kzalloc_served hs.toKernel h1 h2 hshort with ⟨b, hb, hfree, -, he⟩ | ⟨he, -⟩
  · by_cases hslot : ∃ i < maxProgramAllocations, ((K.processAt process).allocations i).ptr = 0
    · -- with a slot the call succeeds
      obtain ⟨b', i, K', hr, -⟩ := processMalloc_spec hd h1 h2 ⟨b, hb, hfree⟩ hslot
      rw [hr] at hfail
      exact absurd hfail (blockAddr_ne_zero b')
    · have hused : ∀ i < maxProgramAllocations, ((K.processAt process).allocations i).ptr ≠ 0 :=
        fun i hi h0 => hslot ⟨i, hi, h0⟩
      have hindex := processFindFreeAllocationIndex_none hused
      refine hd.take_back hs (blocksFor_pos h1) hb (le_blocksFor size) hfree ?_
      unfold processMalloc Kernel.kzalloc
      rw [he]
      dsimp only
      rw [if_neg (blockAddr_ne_zero b), hindex, if_pos (show -enomem < 0 by decide)]
      rfl
  · have hr : (processMalloc K process size).2 = { K with kmem := K.kmem.deny } := by
      unfold processMalloc Kernel.kzalloc
      rw [he]
      rfl
    rw [hr]
    exact ⟨rfl, fun _ => rfl, fun _ _ _ => rfl, fun _ _ _ _ _ => rfl, fun _ _ => rfl⟩

end

/-- The process of `heldKernel`, with all its slots used. -/
def fullKernel : Kernel Unit :=
  { heldKernel with
    processAt := fun _ => { task := 1, allocations := fun _ => ⟨blockAddr 1026, 100⟩ } }

theorem fullKernel_dir : HeldDir fullKernel 2 0x01000000 7 (fun i => blockAddr (i + 1)) where
  pageDir := heldKernel_dir.pageDir
  chunk := heldKernel_dir.chunk
  heap := heldKernel_dir.heap
  chunkWindow := heldKernel_dir.chunkWindow
  chunkTaken := heldKernel_dir.chunkTaken
  dirTaken := heldKernel_dir.dirTaken
  tableTaken := heldKernel_dir.tableTaken

theorem heldKernel_reached : heldKernel.kmem.heap.Reached :=
  Heap.Reached.firstTaken ⟨rfl, rfl⟩ (show 1027 ≤ 25600 by decide) rfl

theorem process_malloc_fails_clean_full :
    AsBefore fullKernel (processMalloc fullKernel 2 5000).2 2 0x01000000
      (fun i => blockAddr (i + 1)) := by
  have hrun : HasRun fullKernel.entries 25600 (blocksFor 5000) :=
    ⟨1027, by decide, fun k _ => by
      have hfree : fullKernel.entries (1027 + k) = entryFree := if_neg (by omega)
      rw [hfree]
      exact free_entryFree⟩
  refine process_malloc_fails_clean fullKernel_dir heldKernel_reached (by decide) (by decide)
    (.inr hrun) ?_
  exact processMalloc_full fun i _ => blockAddr_ne_zero 1026

end Pandora
