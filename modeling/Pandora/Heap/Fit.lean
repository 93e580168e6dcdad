import Pandora.Heap.Client

/-!
# First fit

What one allocation returns and writes. `heap_malloc_blocks_first_fit`: where a run of `n` free
blocks exists, the lowest one is taken and marked, and nothing else is written.

`Heap.Large heap size` is what a caller of `heap_malloc` relies on: an address that is not null is
that of a free block, newly marked as the first of a chain of blocks of the heap that holds `size`
bytes. `Heap.Large.iff` names the three ways in which a call meets it: the size does not wrap and a
run exists; the last block is taken, so the search that finds no run returns null; or the block the
search falls back to has the null address.
-/

namespace Pandora

/-! ## Marking, bit by bit -/

/-- The entry of block `i` after the `n` blocks from `s` on were marked. -/
def markedEntry (s n i : Nat) (entry : UInt8) : UInt8 :=
  if i = s then if n > 1 then entryTaken ||| isFirst ||| hasNext else entryTaken ||| isFirst
  else if s < i ∧ i + 1 < s + n then entryTaken ||| hasNext
  else if s < i ∧ i + 1 = s + n then entryTaken
  else entry

theorem markBlocksTaken_markedEntry {heap : Heap} {s n : Nat} (hn : 1 ≤ n) (h : s + n ≤ 2 ^ 31)
    (i : Nat) : (heapMarkBlocksTaken heap s n).table.entries i =
      markedEntry s n i (heap.table.entries i) := by
  rw [markBlocksTaken_entries hn h]
  unfold markedEntry chainEntry
  rcases Nat.lt_trichotomy i s with hi | rfl | hi
  · rw [if_neg (by omega), if_neg (by omega), if_neg (by omega), if_neg (by omega)]
  · rw [if_pos (by omega), if_pos rfl, Nat.sub_self]
    simp
  · by_cases hlast : i < s + n
    · rw [if_pos ⟨by omega, hlast⟩, if_neg (by omega : ¬ i = s)]
      simp only [if_neg (show ¬ i - s = 0 by omega)]
      by_cases hend : i + 1 < s + n
      · rw [if_pos (by omega), if_pos ⟨hi, hend⟩]
      · rw [if_neg (by omega), if_neg (by omega), if_pos (by omega)]
    · rw [if_neg (by omega), if_neg (by omega), if_neg (by omega), if_neg (by omega)]

/-- **First fit with exact marking.** Where `n ≥ 1` consecutive entries are free, `heap_malloc_blocks`
answers with the lowest such run and marks it, entry by entry; every other entry stays. -/
theorem heap_malloc_blocks_first_fit {heap : Heap} {n : Nat} (hn : 1 ≤ n)
    (htotal : heap.table.total ≤ 2 ^ 31)
    (hrun : HasRun heap.table.entries heap.table.total n) :
    ∃ s, s + n ≤ heap.table.total ∧ FreeRun heap.table.entries s n ∧
      (∀ s' < s, ¬ FreeRun heap.table.entries s' n) ∧
      (heapMallocBlocks heap n).1 = (heap.saddr + 4096 * s) % 2 ^ 32 ∧
      (heapMallocBlocks heap n).2.saddr = heap.saddr ∧
      (heapMallocBlocks heap n).2.table.total = heap.table.total ∧
      ∀ i, (heapMallocBlocks heap n).2.table.entries i =
        markedEntry s n i (heap.table.entries i) := by
  have hm := heapMallocBlocks_spec heap n
  obtain ⟨r, hr⟩ : ∃ r, heapMallocBlocks heap n = r := ⟨_, rfl⟩
  have hsaddr := heapMallocBlocks_saddr heap n
  have htot := heapMallocBlocks_total heap n
  rw [hr] at hm hsaddr htot ⊢
  cases hm with
  | found s _ hs hfree hfirst =>
    refine ⟨s, hs, hfree, hfirst, ?_, hsaddr, htot, fun i => ?_⟩
    · simp only [heapBlockToAddress]
      rw [Word.add_eq, Word.mul_eq]
      omega
    · exact markBlocksTaken_markedEntry hn (by omega) i
  | short s _ _ _ hno => exact absurd hrun (hno hn)
  | none _ hno => exact absurd hrun (hno hn)

/-- A heap of five blocks, the first and the third taken. -/
def holedHeap : Heap :=
  { saddr := 0x1000
    table := { entries := fun i => if i = 0 ∨ i = 2 then entryTaken else entryFree, total := 5 } }

theorem heap_malloc_blocks_first_fit_holes :
    ∃ s, s + 2 ≤ holedHeap.table.total ∧ FreeRun holedHeap.table.entries s 2 ∧
      (∀ s' < s, ¬ FreeRun holedHeap.table.entries s' 2) ∧
      (heapMallocBlocks holedHeap 2).1 = (holedHeap.saddr + 4096 * s) % 2 ^ 32 ∧
      (heapMallocBlocks holedHeap 2).2.saddr = holedHeap.saddr ∧
      (heapMallocBlocks holedHeap 2).2.table.total = holedHeap.table.total ∧
      ∀ i, (heapMallocBlocks holedHeap 2).2.table.entries i =
        markedEntry s 2 i (holedHeap.table.entries i) :=
  heap_malloc_blocks_first_fit (by decide) (by decide)
    ⟨3, by decide, by unfold FreeRun; decide⟩

/-! ## The size of an allocation -/

/-- What a caller relies on when `heap_malloc` returns an address (module doc). -/
def Heap.Large (heap : Heap) (size : Nat) : Prop :=
  let r := heapMalloc heap size
  r.1 ≠ 0 → ∃ b n, r.1 = heapBlockToAddress heap b ∧ Free (heap.table.entries b) ∧
    r.2.table.entries b &&& (entryTaken ||| isFirst) = entryTaken ||| isFirst ∧
    IsChain r.2.table.entries heap.table.total b n ∧ b + n ≤ heap.table.total ∧
    1 ≤ n ∧ size ≤ n * 4096

/-- The search that finds no run has nothing to fall back to. -/
def Heap.LastTaken (heap : Heap) : Prop :=
  heap.table.total = 0 ∨ ¬ Free (heap.table.entries (heap.table.total - 1))

/-- The free run at the end of the table starts with the block at the null address. -/
def Heap.NullTail (heap : Heap) : Prop :=
  ∃ b < heap.table.total, FreeRun heap.table.entries b (heap.table.total - b) ∧
    (b = 0 ∨ ¬ Free (heap.table.entries (b - 1))) ∧ heapBlockToAddress heap b = 0

/-- The size is at least one byte and does not wrap, and a run holds it. -/
def Heap.Holds (heap : Heap) (size : Nat) : Prop :=
  1 ≤ size ∧ size ≤ 2 ^ 32 - 4096 ∧
    HasRun heap.table.entries heap.table.total (blocksFor size)

/-- The free run at the end of a table starts in one place. -/
theorem tailRun_unique {entries : Nat → UInt8} {total b b' : Nat} (hb : b < total)
    (hb' : b' < total) (hrun : FreeRun entries b (total - b))
    (hrun' : FreeRun entries b' (total - b')) (hbefore : b = 0 ∨ ¬ Free (entries (b - 1)))
    (hbefore' : b' = 0 ∨ ¬ Free (entries (b' - 1))) : b = b' := by
  have key : ∀ {c c' : Nat}, c < total → FreeRun entries c' (total - c') →
      (c = 0 ∨ ¬ Free (entries (c - 1))) → c ≤ c' := by
    intro c c' hc hfree hpre
    rcases Nat.lt_or_ge c' c with hlt | hge
    · rcases hpre with h0 | htaken
      · omega
      · have := hfree (c - 1 - c') (by omega)
        rw [show c' + (c - 1 - c') = c - 1 by omega] at this
        exact absurd this htaken
    · exact hge
  exact Nat.le_antisymm (key hb hrun' hbefore) (key hb' hrun hbefore')

/-- The sizes whose rounding wraps, and the size `0`, ask for no block. -/
theorem alignValueToUpper_zero {size : Nat} (h : size < 2 ^ 32)
    (hout : ¬ (1 ≤ size ∧ size ≤ 2 ^ 32 - 4096)) : heapAlignValueToUpper size / 4096 = 0 := by
  unfold heapAlignValueToUpper
  split
  · omega
  · rw [Word.add_eq]
    omega

theorem chainEntry_first (n : Nat) :
    chainEntry n 0 &&& (entryTaken ||| isFirst) = entryTaken ||| isFirst := by
  unfold chainEntry
  by_cases h : 0 + 1 < n
  · simp only [if_pos h]
    decide
  · simp only [if_neg h]
    decide

section
variable {heap : Heap} (hs : heap.Shape)
include hs

/-- A chain that the marking loop writes over the end of the table is no chain in it. -/
theorem not_chain_short {s n n' : Nat} (hover : heap.table.total < s + n) (hs' : s < heap.table.total)
    (hn : n ≤ 2 ^ 20)
    (hch : IsChain (heapMarkBlocksTaken heap s n).table.entries heap.table.total s n')
    (hin : s + n' ≤ heap.table.total) : False := by
  have hlt := hs.total_lt
  have hpos := hch.pos
  have hentry := hch.entry (n' - 1) (by omega) (by omega)
  rw [markBlocksTaken_entries (by omega) (by omega), if_pos (by omega),
    show s + (n' - 1) - s = n' - 1 by omega] at hentry
  have hnext := (chainEntry_hasNext (n := n') (k := n' - 1)).2 (by omega)
  rw [← hentry, chainEntry_hasNext] at hnext
  omega

theorem Heap.Large.of_run {size : Nat} (h : heap.Holds size) : heap.Large size := by
  obtain ⟨h1, h2, hrun⟩ := h
  have hpos := blocksFor_pos h1
  have hlt := hs.total_lt
  have hm := heapMallocBlocks_spec heap (blocksFor size)
  unfold Heap.Large
  simp only [heapMalloc_eq h2]
  obtain ⟨r, hr⟩ : ∃ r, heapMallocBlocks heap (blocksFor size) = r := ⟨_, rfl⟩
  rw [hr] at hm ⊢
  cases hm with
  | found s _ hb hfree _ =>
    intro _
    have hentries : ∀ j, (heapMarkBlocksTaken heap s (blocksFor size)).table.entries j =
        if s ≤ j ∧ j < s + blocksFor size then chainEntry (blocksFor size) (j - s)
        else heap.table.entries j :=
      fun j => markBlocksTaken_entries hpos (show s + blocksFor size ≤ 2 ^ 31 by omega) j
    refine ⟨s, blocksFor size, rfl, hfree 0 hpos, ?_, ⟨hpos, by omega, fun k hk _ => ?_⟩, hb, hpos,
      by have := le_blocksFor size; omega⟩
    · rw [hentries, if_pos (by omega), Nat.sub_self]
      exact chainEntry_first _
    · rw [hentries, if_pos (by omega), show s + k - s = k by omega]
  | short _ _ _ _ hno => exact absurd hrun (hno hpos)
  | none _ hno => exact absurd hrun (hno hpos)

/-- Where no run holds the size, the answer is the run at the end of the table, if there is one. -/
theorem Heap.Large.iff_of_no_run {size : Nat} (hsize : size < 2 ^ 32) (hno : ¬ heap.Holds size) :
    heap.Large size ↔ heap.LastTaken ∨ heap.NullTail := by
  have hlt := hs.total_lt
  have hle : heapAlignValueToUpper size / 4096 ≤ 2 ^ 20 := by
    have : heapAlignValueToUpper size < 2 ^ 32 := by
      unfold heapAlignValueToUpper
      split
      · exact hsize
      · exact Word.add_lt _ _
    omega
  have hnorun : 1 ≤ heapAlignValueToUpper size / 4096 →
      ¬ HasRun heap.table.entries heap.table.total (heapAlignValueToUpper size / 4096) := by
    intro h1 hrun
    by_cases hin : 1 ≤ size ∧ size ≤ 2 ^ 32 - 4096
    · exact hno ⟨hin.1, hin.2, alignValueToUpper_div hin.2 ▸ hrun⟩
    · have := alignValueToUpper_zero hsize hin
      omega
  have hm := heapMallocBlocks_spec heap (heapAlignValueToUpper size / 4096)
  unfold Heap.Large heapMalloc
  obtain ⟨n, hn⟩ : ∃ n, heapAlignValueToUpper size / 4096 = n := ⟨_, rfl⟩
  rw [hn] at hm hnorun hle ⊢
  obtain ⟨r, hr⟩ : ∃ r, heapMallocBlocks heap n = r := ⟨_, rfl⟩
  simp only [hr] at hm ⊢
  cases hm with
  | found s h1 hb hfree _ => exact absurd ⟨s, hb, hfree⟩ (hnorun h1)
  | none hlast _ => exact iff_of_true (fun h => absurd rfl h) (.inl hlast)
  | short s hb htail hbefore _ =>
    have hlast : ¬ heap.LastTaken := by
      rintro (h0 | htaken)
      · omega
      · have := htail (heap.table.total - s - 1) (by omega)
        rw [show s + (heap.table.total - s - 1) = heap.table.total - 1 by omega] at this
        exact htaken this
    constructor
    · intro hlarge
      by_cases hnull : heapBlockToAddress heap s = 0
      · exact .inr ⟨s, hb, htail, hbefore, hnull⟩
      · obtain ⟨b, n', hb', hfree, hfirst, hch, hin, -, -⟩ := hlarge hnull
        have hbs : s = b := by
          have hlt' := hch.lt
          have h1 := blockOf_blockToAddress hs.saddr_lt (b := s) (by omega)
          have h2 := blockOf_blockToAddress hs.saddr_lt (b := b) (by omega)
          rw [← h1, ← h2]
          exact congrArg heap.blockOf hb'
        subst hbs
        -- no block was marked, or the marks run over the end of the table
        rcases Nat.eq_zero_or_pos n with h0 | hpos
        · subst h0
          rw [markBlocksTaken_zero (by omega)] at hch
          exact absurd hfree (hch.not_free (Nat.le_refl s) (by have := hch.pos; omega) hb)
        · exact (not_chain_short hs (short_lt hb htail (hnorun hpos)) hb hle hch hin).elim
    · rintro (h | ⟨b, hb', htail', hbefore', hnull⟩)
      · exact absurd h hlast
      · obtain rfl := tailRun_unique hb hb' htail htail' hbefore hbefore'
        exact fun h => absurd hnull h

/-- An allocation is as large as asked for in exactly these cases (module doc). -/
theorem Heap.Large.iff {size : Nat} (hsize : size < 2 ^ 32) :
    heap.Large size ↔ heap.Holds size ∨ heap.LastTaken ∨ heap.NullTail := by
  by_cases h : heap.Holds size
  · exact iff_of_true (Heap.Large.of_run hs h) (.inl h)
  · rw [Heap.Large.iff_of_no_run hs hsize h]
    exact ⟨.inr, fun h' => h'.resolve_left h⟩

end

/-- The operations keep the shape of a heap. -/
theorem HeapOp.step_shape {c : Client} (op : HeapOp) (h : c.heap.Shape) :
    (op.step c).heap.Shape := by
  cases op with
  | malloc size => exact ⟨by simpa [step] using h.saddr_lt, by simpa [step] using h.total_lt⟩
  | free ptr => exact ⟨by simpa [step] using h.saddr_lt, by simpa [step] using h.total_lt⟩

/-- **An allocation is as large as asked for**, after any calls on a heap set up by `heap_create`,
exactly where a run holds the size (at least one byte, and not so large that its rounding wraps),
or there is no run at the end of the table to answer with. -/
theorem heap_malloc_large_iff {heap h : Heap} {ptr end' N : Nat} {entries : Nat → UInt8}
    (hp : ptr < 2 ^ 32) (hc : heapCreate heap ptr end' ⟨entries, N, []⟩ = (allOk, h))
    (ops : List HeapOp) {size : Nat} (hsize : size < 2 ^ 32) :
    (Run.exec HeapOp.step ⟨h, []⟩ ops).heap.Large size ↔
      (Run.exec HeapOp.step ⟨h, []⟩ ops).heap.Holds size ∨
        (Run.exec HeapOp.step ⟨h, []⟩ ops).heap.LastTaken ∨
        (Run.exec HeapOp.step ⟨h, []⟩ ops).heap.NullTail :=
  Heap.Large.iff
    (Run.Steps.inv (I := fun c : Client => c.heap.Shape) (P := fun _ _ => True)
      (fun _ op h _ => op.step_shape h) (heapCreate_shape hp hc)
      (Run.steps_of_forall fun _ _ => trivial)) hsize

/-- The heap that `kheap_init` sets up. -/
def kernelHeap : Heap :=
  { saddr := 0x01000000, table := HeapTable.clear ⟨fun _ => 0, 25600, []⟩ }

theorem kernelHeap_create :
    heapCreate ⟨⟨fun _ => 0, 0, []⟩, 0⟩ 0x01000000 0x07400000 ⟨fun _ => 0, 25600, []⟩ =
      (allOk, kernelHeap) :=
  heapCreate_of (by decide) (by decide) (by decide +kernel)

theorem heap_malloc_large_iff_page :
    (Run.exec HeapOp.step ⟨kernelHeap, []⟩ [.free 0x01000000]).heap.Large 4096 ↔
      (Run.exec HeapOp.step ⟨kernelHeap, []⟩ [.free 0x01000000]).heap.Holds 4096 ∨
        (Run.exec HeapOp.step ⟨kernelHeap, []⟩ [.free 0x01000000]).heap.LastTaken ∨
        (Run.exec HeapOp.step ⟨kernelHeap, []⟩ [.free 0x01000000]).heap.NullTail :=
  heap_malloc_large_iff (by decide) kernelHeap_create [.free 0x01000000] (by decide)

/-- A request of no bytes, and one whose rounding wraps: the kernel's heap, all free, answers with
its first block and leaves it free. -/
theorem kernelHeap_not_large :
    heapCreate ⟨⟨fun _ => 0, 0, []⟩, 0⟩ 0x01000000 0x07400000 ⟨fun _ => 0, 25600, []⟩ =
        (allOk, kernelHeap) ∧
      ¬ kernelHeap.Large 0 ∧ ¬ kernelHeap.Large (2 ^ 32 - 1) := by
  have hshape : kernelHeap.Shape := ⟨by decide, by decide⟩
  have hfree : ∀ i, Free (kernelHeap.table.entries i) := by
    intro i
    simp only [kernelHeap, HeapTable.clear]
    split <;> exact free_entryFree
  have hlast : ¬ kernelHeap.LastTaken := fun h =>
    h.elim (by decide) fun htaken => htaken (hfree _)
  have hnull : ¬ kernelHeap.NullTail := by
    rintro ⟨b, hb, -, -, he⟩
    have hb' : b < 25600 := hb
    have hadd := sub_blockToAddress hshape.saddr_lt (b := b) (by omega)
    rw [he, show kernelHeap.saddr = 0x01000000 from rfl, Word.sub_eq] at hadd
    omega
  have key : ∀ size < 2 ^ 32, ¬ (1 ≤ size ∧ size ≤ 2 ^ 32 - 4096) → ¬ kernelHeap.Large size := by
    intro size hsize hout hlarge
    rcases (Heap.Large.iff hshape hsize).1 hlarge with h | h | h
    · exact hout ⟨h.1, h.2.1⟩
    · exact hlast h
    · exact hnull h
  exact ⟨kernelHeap_create, key 0 (by decide) (by decide), key (2 ^ 32 - 1) (by decide) (by decide)⟩

end Pandora
