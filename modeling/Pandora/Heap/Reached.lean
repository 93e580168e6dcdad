import Pandora.Heap.Client
import Pandora.Heap.Ledger

/-!
# The kernel's heap between calls

`Heap.Reached`: the heap is what `heap_create` and any calls of `heap_malloc` and `heap_free` make of
the kernel's heap (the ghost `written` apart). The search reads only the low bits of an entry, but in
a heap so reached a free block has the entry `HEAP_BLOCK_TABLE_ENTRY_FREE` (`Clean`): both loops write
nothing else that the search takes for free. So a block that is taken and given back has the entry
it had before (`kfree_take_entries`).
-/

namespace Pandora

/-- A free block has the entry that `heap_free` writes. -/
def Clean (entries : Nat → UInt8) : Prop :=
  ∀ b < 25600, Free (entries b) → entries b = entryFree

/-! ## The loops -/

theorem Clean.set {t : HeapTable} (h : Clean t.entries) {i : Nat} {entry : UInt8}
    (he : Free entry → entry = entryFree) : Clean (t.set i entry).entries := by
  intro b hb
  rw [HeapTable.set_entries]
  split
  · exact he
  · exact h b hb

theorem Clean.markBlocksTaken_loop (endBlock : Int) :
    ∀ (m i : Nat) (entry : UInt8) (t : HeapTable), ¬ Free entry → Clean t.entries →
      Clean (heapMarkBlocksTaken.loop endBlock m i entry t).entries
  | 0, _, _, _, _, h => h
  | m + 1, i, entry, t, he, h => by
    simp only [heapMarkBlocksTaken.loop]
    refine Clean.markBlocksTaken_loop endBlock m (i + 1) _ _ ?_ (h.set fun hf => absurd hf he)
    split <;> decide

theorem Clean.markBlocksFree_loop :
    ∀ (m i : Nat) (t : HeapTable), Clean t.entries →
      Clean (heapMarkBlocksFree.loop m i t).entries
  | 0, _, _, h => h
  | m + 1, i, t, h => by
    have hset : Clean (t.set i entryFree).entries := h.set fun _ => rfl
    simp only [heapMarkBlocksFree.loop]
    split
    · exact hset
    · exact Clean.markBlocksFree_loop m (i + 1) _ hset

theorem Clean.markBlocksTaken {heap : Heap} (h : Clean heap.table.entries) (s n : Nat) :
    Clean (heapMarkBlocksTaken heap s n).table.entries := by
  refine Clean.markBlocksTaken_loop _ _ _ _ _ ?_ h
  split <;> decide

theorem Clean.heapMalloc {heap : Heap} (h : Clean heap.table.entries) (size : Nat) :
    Clean (heapMalloc heap size).2.table.entries := by
  unfold Pandora.heapMalloc heapMallocBlocks
  dsimp only
  split
  · exact h
  · exact h.markBlocksTaken _ _

theorem Clean.heapFree {heap : Heap} (h : Clean heap.table.entries) (p : Nat) :
    Clean (heapFree heap p).table.entries :=
  Clean.markBlocksFree_loop _ _ _ h

/-! ## Reached heaps -/

/-- The heap is reached by calls from the one that `kheap_init` sets up (module doc). -/
def Heap.Reached (heap : Heap) : Prop :=
  ∃ h₀ h entries ops,
    heapCreate h₀ 0x01000000 0x07400000 ⟨entries, 25600, []⟩ = (allOk, h) ∧
    heap.saddr = (Run.exec HeapOp.step ⟨h, []⟩ ops).heap.saddr ∧
    heap.table.total = (Run.exec HeapOp.step ⟨h, []⟩ ops).heap.table.total ∧
    heap.table.entries = (Run.exec HeapOp.step ⟨h, []⟩ ops).heap.table.entries

/-- What a heap reached by calls keeps. -/
structure Heap.Sound (heap : Heap) : Prop extends heap.Kernel where
  clean : Clean heap.table.entries

theorem HeapOp.step_sound (c : Client) (op : HeapOp) (h : c.heap.Sound) : (op.step c).heap.Sound := by
  cases op with
  | malloc size =>
    exact {
      saddr := (heapMalloc_saddr _ _).trans h.saddr
      total := (heapMalloc_total _ _).trans h.total
      clean := h.clean.heapMalloc size }
  | free ptr =>
    exact { toKernel := h.toKernel.free ptr, clean := h.clean.heapFree ptr }

theorem Heap.Reached.sound {heap : Heap} (h : heap.Reached) : heap.Sound := by
  obtain ⟨h₀, h₁, entries, ops, hc, hsaddr, htotal, hentries⟩ := h
  have hcreate : h₁.Sound := by
    obtain ⟨-, -, -, rfl⟩ := heapCreate_ok hc
    exact {
      saddr := rfl
      total := rfl
      clean := fun b hb _ => if_pos hb }
  have hrun : (Run.exec HeapOp.step ⟨h₁, []⟩ ops).heap.Sound :=
    Run.Steps.inv (I := fun c : Client => c.heap.Sound) (P := fun _ _ => True)
      (fun c op hs _ => op.step_sound c hs) hcreate (Run.steps_of_forall fun _ _ => trivial)
  exact {
    saddr := hsaddr.trans hrun.saddr
    total := htotal.trans hrun.total
    clean := by
      rw [hentries]
      exact hrun.clean }

/-! ## A block that comes back -/

/-- Blocks that were free, taken and given back, have the entries of before. -/
theorem kfree_take_entries {k : Kmem} (hk : k.heap.Sound) {b n size : Nat} (hn : 1 ≤ n)
    (hb : b + n ≤ 25600) (hrun : FreeRun k.heap.table.entries b n) {k' : Kmem}
    (hk' : k'.heap = (k.take b n size).heap) :
    (kfree k' (blockAddr b)).heap.table.entries = k.heap.table.entries := by
  have hheap : k'.heap = heapMarkBlocksTaken k.heap b n := hk'
  have hentries : ∀ j, (heapMarkBlocksTaken k.heap b n).table.entries j = _ :=
    markBlocksTaken_entries hn (by omega)
  have hchain : IsChain k'.heap.table.entries 25600 b n := by
    rw [hheap]
    refine ⟨hn, by omega, fun i hi _ => ?_⟩
    rw [hentries, if_pos ⟨by omega, by omega⟩, show b + i - b = i by omega]
  have hkernel : k'.heap.Kernel := by
    rw [hheap]
    exact hk.toKernel.markBlocksTaken b n
  funext j
  rw [kfree_chain hkernel hchain, hheap, hentries]
  by_cases hj : b ≤ j ∧ j < b + n
  · have hfree := hrun (j - b) (by omega)
    rw [show b + (j - b) = j by omega] at hfree
    rw [if_pos ⟨hj.1, hj.2, by omega⟩, hk.clean j (by omega) hfree]
  · rw [if_neg (by omega), if_neg hj]

/-! ## A heap that fills up -/

theorem kzalloc_heap (k : Kmem) (size : Nat) :
    (kzalloc k size).2.heap = (heapMalloc k.heap size).2 := by
  unfold kzalloc kmalloc
  dsimp only
  split <;> rfl

/-- The table whose first `n` blocks are allocations of one block each. -/
def firstTaken (n i : Nat) : UInt8 := if i < n then entryTaken ||| isFirst else entryFree

theorem heapMalloc_firstTaken {heap : Heap} (hk : heap.Kernel) {n : Nat} (hn : n < 25600)
    (he : heap.table.entries = firstTaken n) :
    (heapMalloc heap 4096).2.table.entries = firstTaken (n + 1) := by
  have hfree : Free (heap.table.entries n) := by
    rw [he, firstTaken, if_neg (Nat.lt_irrefl n)]
    exact free_entryFree
  rw [← kzalloc_heap ⟨heap, fun _ => 0, false, false, false⟩ 4096]
  rcases kzalloc_page (k := ⟨heap, fun _ => 0, false, false, false⟩) hk 4096 (by decide)
    (Nat.le_refl _) with ⟨b, hb, hbfree, hfirst, h⟩ | ⟨-, hno⟩
  · have hbn : b = n := by
      refine Nat.le_antisymm (Nat.le_of_not_lt fun hlt => hfirst n hlt hfree) ?_
      refine Nat.le_of_not_lt fun hlt => ?_
      change Free (heap.table.entries b) at hbfree
      rw [he, firstTaken, if_pos hlt] at hbfree
      exact absurd hbfree (by decide)
    rw [h, take_heap]
    funext j
    rw [markBlocksTaken_one _ hb, hbn]
    change (if j = n then chainEntry 1 0 else heap.table.entries j) = firstTaken (n + 1) j
    rw [he]
    unfold firstTaken
    by_cases hj : j = n
    · rw [if_pos hj, if_pos (by omega)]
      rfl
    · rw [if_neg hj]
      by_cases hlt : j < n
      · rw [if_pos hlt, if_pos (by omega)]
      · rw [if_neg hlt, if_neg (by omega)]
  · exact absurd hfree (hno n hn)

/-- A heap whose first `n` blocks are taken, each by a call of its own. -/
theorem Heap.Reached.firstTaken {heap : Heap} (hk : heap.Kernel) {n : Nat} (hn : n ≤ 25600)
    (he : heap.table.entries = firstTaken n) : heap.Reached := by
  obtain ⟨h, hh⟩ : ∃ h : Heap, h = ⟨HeapTable.clear ⟨fun _ => 0, 25600, []⟩, 0x01000000⟩ := ⟨_, rfl⟩
  have hc : heapCreate ⟨⟨fun _ => 0, 0, []⟩, 0⟩ 0x01000000 0x07400000 ⟨fun _ => 0, 25600, []⟩ =
      (allOk, h) := by
    rw [hh]
    exact heapCreate_of (by decide) (by decide) (by decide +kernel)
  have hrun : ∀ m ≤ 25600,
      (Run.exec HeapOp.step ⟨h, []⟩ (List.replicate m (.malloc 4096))).heap.Kernel ∧
      (Run.exec HeapOp.step ⟨h, []⟩ (List.replicate m (.malloc 4096))).heap.table.entries =
        Pandora.firstTaken m := by
    intro m
    induction m with
    | zero =>
      intro _
      rw [hh]
      refine ⟨⟨rfl, rfl⟩, funext fun i => ?_⟩
      change (if i < 25600 then entryFree else 0) = if i < 0 then _ else entryFree
      rw [if_neg (Nat.not_lt_zero i)]
      split <;> rfl
    | succ m ih =>
      intro hm
      obtain ⟨hkernel, hentries⟩ := ih (by omega)
      rw [List.replicate_succ', Run.exec_append, Run.exec_cons, Run.exec_nil]
      exact ⟨⟨(heapMalloc_saddr _ _).trans hkernel.saddr, (heapMalloc_total _ _).trans hkernel.total⟩,
        heapMalloc_firstTaken hkernel (by omega) hentries⟩
  obtain ⟨hkernel, hentries⟩ := hrun n hn
  exact ⟨_, h, _, List.replicate n (.malloc 4096), hc, hk.saddr.trans hkernel.saddr.symm,
    hk.total.trans hkernel.total.symm, he.trans hentries.symm⟩

end Pandora
