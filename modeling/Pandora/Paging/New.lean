import Pandora.Heap.Pages
import Pandora.Paging.Create

/-!
# New directories

`NewPaging k k' flags chunk dir table`: `paging_new_4gb` got all of its 1026 blocks. They were free
and are one-block allocations now, the other entries and the memory of the other blocks are as they
were. It gets them where so many blocks are free (`exists_newPaging`); where it does not, it returns
null after having written through a null pointer (`pagingNew4gb_cases`).
-/

namespace Pandora

open ByteMem

structure NewPaging (k k' : Kmem) (flags chunk dir : Nat) (table : Nat → Nat) : Prop where
  kernel : k'.heap.Kernel
  pageDir : PageDir k'.mem dir (flags ||| pagingIsWriteable) table
  chunkOf : ChunkOf k'.mem chunk dir table
  identity : ∀ p < 2 ^ 20, pageEntry k'.mem table p = 4096 * p ||| flags
  chunkWindow : InWindow chunk
  chunk_ne_dir : chunk ≠ dir
  taken : ∀ b < 25600, (blockAddr b = dir ∨ blockAddr b = chunk ∨
      ∃ j < 1024, blockAddr b = table j) →
    Free (k.heap.table.entries b) ∧ k'.heap.table.entries b = chainEntry 1 0
  others : ∀ b, blockAddr b ≠ dir → blockAddr b ≠ chunk → (∀ j < 1024, blockAddr b ≠ table j) →
    k'.heap.table.entries b = k.heap.table.entries b
  outside : ∀ x < 2 ^ 32, 4096 ≤ x → (x < dir ∨ dir + 4096 ≤ x) →
    (x < chunk ∨ chunk + 4096 ≤ x) → (∀ j < 1024, x < table j ∨ table j + 4096 ≤ x) →
    k'.mem x = k.mem x
  quiet : k.Quiet k'

section

variable {k k' : Kmem} {h h₀ : Heap} {flags : Nat} {table : Nat → Nat}

/-- More blocks were free than the tables can have taken. -/
theorem TableBlocks.exists_free (ht : TableBlocks h₀ h 1024 table)
    (hcard : 1025 ≤ (freeBlocks h₀).card) : ∃ b < 25600, Free (h.table.entries b) := by
  by_contra hno
  have hsub : freeBlocks h₀ ⊆ (Finset.range 1024).image fun j => (table j - 0x01000000) / 4096 := by
    intro b hb
    obtain ⟨hb, hfree⟩ := mem_freeBlocks.1 hb
    rw [Finset.mem_image]
    by_contra hc
    refine hno ⟨b, hb, (ht.others b fun j hj he => hc ⟨j, Finset.mem_range.2 hj, ?_⟩) ▸ hfree⟩
    rw [he]
    unfold blockAddr
    omega
  have := (Finset.card_le_card hsub).trans Finset.card_image_le
  rw [Finset.card_range] at this
  omega

/-- On a full heap the loop over the tables allocates nothing. -/
theorem pagingNew4gb_loop_full {dir : Nat} (hk : h.Kernel)
    (hfull : ∀ b < 25600, ¬ Free (h.table.entries b)) :
    ∀ (n i offset : Nat) (k : Kmem), k.heap = h →
      (pagingNew4gb.loop dir flags n i offset k).heap = h
  | 0, _, _, _, he => he
  | n + 1, i, offset, k, he => by
    have hkk : k.heap.Kernel := he ▸ hk
    unfold pagingNew4gb.loop
    rcases kzalloc_page hkk 4096 (by decide) (by decide) with ⟨b, hb, hfree, -, -⟩ | ⟨he', -⟩
    · exact absurd (he ▸ hfree) (hfull b hb)
    · rw [he']
      dsimp only
      exact pagingNew4gb_loop_full hk hfull n _ _ _ (by simp [he])

/-- A directory and its tables, all there, with a chunk behind them. -/
theorem Building.newPaging {k₀ k₁ : Kmem} {b c : Nat}
    (ht : Building k₀ k₁ (blockAddr b) flags 1024 table) (hf : flags < 4096) (hb : b < 25600)
    (hfree : Free (k.heap.table.entries b)) (hheap : k₀.heap = heapMarkBlocksTaken k.heap b 1)
    (hmem : ∀ x < 2 ^ 32, x < blockAddr b ∨ blockAddr b + 4096 ≤ x → k₀.mem x = k.mem x)
    (hquiet : k.Quiet k₀) (hc : c < 25600) (hcfree : Free (k₁.heap.table.entries c))
    (hword : read32 k'.mem (blockAddr c) = blockAddr b)
    (hkeep : ∀ x < 2 ^ 32, x < blockAddr c ∨ blockAddr c + 4 ≤ x → k'.mem x = k₁.mem x)
    (hheap' : k'.heap = heapMarkBlocksTaken k₁.heap c 1) (hquiet' : k₁.Quiet k') :
    NewPaging k k' flags (blockAddr c) (blockAddr b) table := by
  have hone := markBlocksTaken_one k.heap hb
  have hdf : ¬ Free (k₀.heap.table.entries b) := by
    rw [hheap, hone, if_pos rfl]
    exact chainEntry_not_free 1 0
  have hnull : ∀ j < 1024, table j ≠ 0 := fun j hj h0 => ht.blocks.full ⟨j, hj, h0⟩ c hc hcfree
  obtain ⟨hpd, hco, hid⟩ :=
    ht.pageDir hf hb hdf hnull hword hkeep (.inr ⟨c, hc, hcfree, rfl⟩)
  obtain ⟨hct, hcfree₀⟩ := ht.blocks.of_free hcfree
  have hcb : c ≠ b := fun he => hdf (he ▸ hcfree₀)
  have htb : ∀ j < 1024, table j ≠ blockAddr b := fun j hj => hpd.ne_dir j hj
  -- what was free before a table was taken was free before the directory was
  have hbefore : ∀ a, Free (k₀.heap.table.entries a) → Free (k.heap.table.entries a) := fun a ha => by
    rw [hheap, hone] at ha
    by_cases hab : a = b
    · exact absurd (by rwa [if_pos hab] at ha) (chainEntry_not_free 1 0)
    · rwa [if_neg hab] at ha
  refine ⟨hheap' ▸ ht.blocks.kernel.markBlocksTaken c 1, hpd, hco, hid, inWindow_blockAddr hc,
    fun he => hcb (blockAddr_inj.1 he), fun a ha hor => ?_, fun a had hac hat => ?_,
    fun x hx hlo hd hch htab => ?_, ?_⟩
  · rw [hheap', markBlocksTaken_one _ hc]
    rcases hor with he | he | ⟨j, hj, he⟩
    · obtain rfl : a = b := blockAddr_inj.1 he
      rw [if_neg (Ne.symm hcb), ht.blocks.others a htb, hheap, hone, if_pos rfl]
      exact ⟨hfree, rfl⟩
    · obtain rfl : a = c := blockAddr_inj.1 he
      rw [if_pos rfl]
      exact ⟨hbefore a hcfree₀, rfl⟩
    · obtain ⟨a', -, he', hfree', hchain⟩ := ht.blocks.block j hj (hnull j hj)
      obtain rfl : a = a' := blockAddr_inj.1 (he.trans he')
      rw [hchain, ite_self]
      exact ⟨hbefore a hfree', rfl⟩
  · rw [hheap', markBlocksTaken_one _ hc, if_neg (mt (congrArg blockAddr) hac),
      ht.blocks.others a fun j hj => (hat j hj).symm, hheap, hone,
      if_neg (mt (congrArg blockAddr) had)]
  · rw [hkeep x hx (by omega), ht.words.outside x hx hlo hd fun j hj _ => htab j hj, hmem x hx hd]
  · have hno : ¬ ∃ j < 1024, table j = 0 := fun ⟨j, hj, h0⟩ => hnull j hj h0
    have := ht.fault
    rw [or_iff_left hno] at this
    exact hquiet.trans (.trans ⟨Bool.eq_iff_iff.2 this, ht.short, ht.denied hnull⟩ hquiet')

/-- All blocks, or a null pointer where fewer than 1026 are free. -/
theorem pagingNew4gb_cases (hk : k.heap.Kernel) (hf : flags < 4096) :
    (∃ chunk k' dir table, pagingNew4gb k flags = (chunk, k') ∧
      NewPaging k k' flags chunk dir table) ∨
    ((freeBlocks k.heap).card < 1026 ∧
      ∃ k', pagingNew4gb k flags = (0, k') ∧ k'.fault = true) := by
  rcases kzalloc_page hk 4096 (by decide) (by decide) with
    ⟨b, hb, hfree, -, he⟩ | ⟨he, hfull⟩
  · obtain ⟨k₀, hk₀⟩ : ∃ k₀ : Kmem, k₀ = k.take b 1 4096 := ⟨_, rfl⟩
    have hlt := blockAddr_lt hb
    have hheap : k₀.heap = heapMarkBlocksTaken k.heap b 1 := by rw [hk₀]; rfl
    have hmem : ∀ x < 2 ^ 32, x < blockAddr b ∨ blockAddr b + 4096 ≤ x → k₀.mem x = k.mem x :=
      fun x hx hout => by
        rw [hk₀]
        exact fill_apply_of_outside (by omega) hx hout
    rw [← hk₀] at he
    have hdf : ¬ Free (k₀.heap.table.entries b) := by
      rw [hheap, markBlocksTaken_one _ hb, if_pos rfl]
      exact chainEntry_not_free 1 0
    obtain ⟨k₁, table, ht, hnew⟩ :=
      pagingNew4gb_building (hheap ▸ hk.markBlocksTaken b 1) hf hb hdf he
    obtain ⟨⟨chunk, k'⟩, hr⟩ : ∃ r, pagingNew4gb k flags = r := ⟨_, rfl⟩
    obtain ⟨hword, hkeep, hcases⟩ := writeChunk ht.blocks.kernel (by omega) (hr.symm.trans hnew)
    rcases hcases with ⟨c, hc, hcfree, rfl, hheap', hquiet⟩ | ⟨hfull, rfl, -, hfault'⟩
    · exact .inl ⟨_, k', _, table, hr, ht.newPaging hf hb hfree hheap hmem (hk₀ ▸ .take k b 1 4096) hc hcfree
        hword hkeep hheap' hquiet⟩
    · refine .inr ⟨?_, k', hr, hfault'⟩
      by_contra hcard
      have hmemb : b ∈ freeBlocks k.heap := mem_freeBlocks.2 ⟨hb, hfree⟩
      have hcard₀ : 1025 ≤ (freeBlocks k₀.heap).card := by
        rw [hheap, freeBlocks_markBlocksTaken hb, Finset.card_erase_of_mem hmemb]
        omega
      obtain ⟨c, hc, hcfree⟩ := ht.blocks.exists_free hcard₀
      exact hfull c hc hcfree
  · have hzero : (freeBlocks k.heap).card = 0 := Finset.card_eq_zero.2
      (Finset.eq_empty_of_forall_notMem fun b hb => hfull b (mem_freeBlocks.1 hb).1
        (mem_freeBlocks.1 hb).2)
    refine .inr ⟨by omega, ?_⟩
    unfold pagingNew4gb
    rw [he]
    dsimp only
    have hloop : (pagingNew4gb.loop 0 flags 1024 0 0 k.deny).heap = k.heap :=
      pagingNew4gb_loop_full hk hfull 1024 0 0 k.deny rfl
    generalize pagingNew4gb.loop 0 flags 1024 0 0 k.deny = k₁ at hloop ⊢
    have hk₁ : k₁.heap.Kernel := hloop ▸ hk
    rcases kzalloc_page hk₁ 4 (by decide) (by decide) with ⟨b, hb, hfree, -, -⟩ | ⟨he', -⟩
    · exact absurd (hloop ▸ hfree) (hfull b hb)
    · rw [he']
      dsimp only
      rw [follow_zero]
      exact ⟨_, rfl, rfl⟩

theorem exists_newPaging (hk : k.heap.Kernel) (hf : flags < 4096)
    (hcard : 1026 ≤ (freeBlocks k.heap).card) :
    ∃ dir table, NewPaging k (pagingNew4gb k flags).2 flags (pagingNew4gb k flags).1 dir table := by
  rcases pagingNew4gb_cases hk hf with ⟨chunk, k', dir, table, he, h⟩ | ⟨hlt, -⟩
  · exact ⟨dir, table, by rw [he]; exact h⟩
  · omega

end

end Pandora
