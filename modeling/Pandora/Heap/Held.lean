import Pandora.Heap.Kheap

/-!
# A block that stays taken

`Held entries b`: block `b` is taken and no chain leads into it from the block before. Allocations
take free blocks only, and freeing follows a chain, so `b` stays held as long as no pointer to it is
freed (`Held.kzalloc`, `Held.kfree`). `freedBlock p` is the block `kfree` begins with for any pointer.
-/

namespace Pandora

open ByteMem

/-- Block `b` is taken, and where a chain begins. -/
structure Held (entries : Nat → UInt8) (b : Nat) : Prop where
  lt : b < 25600
  taken : ¬ Free (entries b)
  first : ∀ a, a + 1 = b → entries a &&& hasNext = 0

/-- No chain leads into a free block. -/
def Closed (entries : Nat → UInt8) : Prop :=
  ∀ a, a + 1 < 25600 → Free (entries (a + 1)) → entries a &&& hasNext = 0

/-- The block that freeing `p` begins with. -/
def freedBlock (p : Nat) : Nat :=
  Word.ofInt ((Word.toInt (Word.sub p 0x01000000)).tdiv 4096)

theorem freedBlock_blockAddr {b : Nat} (h : b < 25600) : freedBlock (blockAddr b) = b := by
  unfold freedBlock blockAddr
  rw [Word.sub_of_le (by omega) (by omega), Word.toInt_of_lt (by omega),
    show (0x01000000 + 4096 * b - 0x01000000 : Nat) = b * 4096 by omega]
  rw [show (((b * 4096 : Nat) : Int)).tdiv 4096 = (b : Nat) by
    rw [Int.tdiv_eq_ediv_of_nonneg (by omega)]; omega]
  exact Word.ofInt_natCast (by omega)

/-- Freeing null begins outside the table. -/
theorem freedBlock_zero : 25600 ≤ freedBlock 0 := by
  unfold freedBlock
  rw [Word.sub_eq, show (2 ^ 32 - 0x01000000 % 2 ^ 32 + 0) % 2 ^ 32 = 4278190080 from rfl,
    Word.toInt_of_ge (by decide) (by decide),
    show ((4278190080 : Nat) - 2 ^ 32 : Int).tdiv 4096 = -4096 from rfl]
  have := Word.ofInt_neg (z := -4096) (by decide) (by decide)
  omega

/-! ## Allocation -/

/-- What an answered request did: the blocks from `b` on were free and are a chain now. -/
structure Taken (k : Kmem) (size b n : Nat) (k' : Kmem) : Prop where
  lt : b < 25600
  here : Free (k.heap.table.entries b)
  free : ∀ j, b ≤ j → j < b + n → j < 25600 → Free (k.heap.table.entries j)
  entries : ∀ j, k'.heap.table.entries j =
    if b ≤ j ∧ j < b + n then chainEntry n (j - b) else k.heap.table.entries j
  kernel : k'.heap.Kernel
  fault : k'.fault = k.fault
  denied : k'.denied = k.denied
  blocks : 1 ≤ size → size ≤ 2 ^ 32 - 4096 → n = blocksFor size

theorem alignValueToUpper_lt {size : Nat} (h : size < 2 ^ 32) :
    heapAlignValueToUpper size / 4096 < 2 ^ 20 := by
  unfold heapAlignValueToUpper
  split
  · omega
  · have := Word.add_lt (size - size % 4096) 4096
    omega

/-- Marking `n` blocks, also none. -/
theorem markBlocksTaken_entries' (heap : Heap) {b n : Nat} (h : b + n ≤ 2 ^ 31) (hb : b < 25600)
    (j : Nat) : (heapMarkBlocksTaken heap b n).table.entries j =
      if b ≤ j ∧ j < b + n then chainEntry n (j - b) else heap.table.entries j := by
  rcases Nat.eq_zero_or_pos n with rfl | hn
  · rw [markBlocksTaken_zero (by omega), if_neg (by omega)]
  · exact markBlocksTaken_entries hn h j

/-- The outcomes of `kzalloc` on any heap and for any size. -/
theorem kzalloc_cases {k : Kmem} (hk : k.heap.Kernel) {size : Nat} (hsize : size < 2 ^ 32) :
    kzalloc k size = (0, k.deny) ∨
    ∃ b n k', kzalloc k size = (blockAddr b, k') ∧ Taken k size b n k' := by
  obtain ⟨n, hn⟩ : ∃ n, heapAlignValueToUpper size / 4096 = n := ⟨_, rfl⟩
  have hlt : n < 2 ^ 20 := hn ▸ alignValueToUpper_lt hsize
  have hblocks : 1 ≤ size → size ≤ 2 ^ 32 - 4096 → n = blocksFor size := fun _ h =>
    hn ▸ alignValueToUpper_div h
  have htaken : ∀ b k', b < 25600 → Free (k.heap.table.entries b) →
      (∀ j, b ≤ j → j < b + n → j < 25600 → Free (k.heap.table.entries j)) →
      k'.heap = heapMarkBlocksTaken k.heap b n → k'.fault = k.fault → k'.denied = k.denied →
      Taken k size b n k' := fun b k' hb here free hheap hfault hdenied =>
    { lt := hb
      here := here
      free := free
      entries := fun j => by rw [hheap, markBlocksTaken_entries' _ (by omega) hb]
      kernel := hheap ▸ hk.markBlocksTaken b n
      fault := hfault
      denied := hdenied
      blocks := hblocks }
  -- the address and the memory after an answered request
  have hanswer : ∀ b, b < 25600 →
      heapMallocBlocks k.heap n = (heapBlockToAddress k.heap b, heapMarkBlocksTaken k.heap b n) →
      ∃ k', kzalloc k size = (blockAddr b, k') ∧ k'.heap = heapMarkBlocksTaken k.heap b n ∧
        k'.fault = k.fault ∧ k'.denied = k.denied := fun b hb he => by
    have hm : heapMalloc k.heap size = (blockAddr b, heapMarkBlocksTaken k.heap b n) := by
      unfold heapMalloc
      rw [hn, he, hk.blockToAddress hb]
    have hne := blockAddr_ne_zero b
    unfold kzalloc kmalloc
    simp [hm, hne]
  have hm := heapMallocBlocks_spec k.heap n
  obtain ⟨r, hr⟩ : ∃ r, heapMallocBlocks k.heap n = r := ⟨_, rfl⟩
  rw [hr] at hm
  have htotal := hk.total
  cases hm with
  | found b hpos hb hrun =>
    rw [htotal] at hb
    obtain ⟨k', he, hheap, hfault, hdenied⟩ := hanswer b (by omega) hr
    refine .inr ⟨b, n, k', he, htaken b k' (by omega) ?_ ?_ hheap hfault hdenied⟩
    · have := hrun 0 hpos
      rwa [Nat.add_zero] at this
    · intro j hj hjn _
      have := hrun (j - b) (by omega)
      rwa [Nat.add_sub_cancel' hj] at this
  | short b hb htail =>
    rw [htotal] at hb htail
    obtain ⟨k', he, hheap, hfault, hdenied⟩ := hanswer b hb hr
    have hfree : ∀ j, b ≤ j → j < 25600 → Free (k.heap.table.entries j) := fun j hj hlt => by
      have := htail (j - b) (by omega)
      rwa [Nat.add_sub_cancel' hj] at this
    exact .inr ⟨b, n, k', he, htaken b k' hb (hfree b (Nat.le_refl b) hb)
      (fun j hj _ hjt => hfree j hj hjt) hheap hfault hdenied⟩
  | none =>
    refine .inl (kzalloc_of_none ?_)
    unfold heapMalloc
    rw [hn, hr]

section

variable {k k' : Kmem} {size b b' n : Nat}

theorem Taken.pos (h : Taken k size b n k') (h1 : 1 ≤ size) (h2 : size ≤ 2 ^ 32 - 4096) : 1 ≤ n := by
  rw [h.blocks h1 h2]
  exact blocksFor_pos h1

/-- A block that was taken is none of those. -/
theorem Taken.ne (h : Taken k size b n k') (hb : ¬ Free (k.heap.table.entries b')) : b ≠ b' :=
  fun he => hb (he ▸ h.here)

/-- A held block stays held. -/
theorem Taken.held (h : Taken k size b n k') (hb : Held k.heap.table.entries b') :
    Held k'.heap.table.entries b' where
  lt := hb.lt
  taken := by
    rw [h.entries, if_neg fun hj => hb.taken (h.free b' hj.1 hj.2 hb.lt)]
    exact hb.taken
  first := fun a ha => by
    rw [h.entries]
    split
    · -- the chain ends before the block
      refine chainEntry_hasNext.2 (Nat.le_of_not_lt fun hlt => ?_)
      exact hb.taken (h.free b' (by omega) (by omega) hb.lt)
    · exact hb.first a ha

/-- The first of the blocks is held. -/
theorem Taken.self (h : Taken k size b n k') (hn : 1 ≤ n) (hc : Closed k.heap.table.entries) :
    Held k'.heap.table.entries b where
  lt := h.lt
  taken := by
    rw [h.entries, if_pos ⟨Nat.le_refl b, by omega⟩]
    exact chainEntry_not_free _ _
  first := fun a ha => by
    subst ha
    rw [h.entries, if_neg (by omega)]
    exact hc a h.lt h.here

theorem Taken.closed (h : Taken k size b n k') (hc : Closed k.heap.table.entries) :
    Closed k'.heap.table.entries := fun a ha hfree => by
  rw [h.entries] at hfree
  rw [h.entries]
  by_cases hin : b ≤ a + 1 ∧ a + 1 < b + n
  · rw [if_pos hin] at hfree
    exact absurd hfree (chainEntry_not_free _ _)
  · rw [if_neg hin] at hfree
    split
    · exact chainEntry_hasNext.2 (by omega)
    · exact hc a ha hfree

end

/-! ## Release -/

theorem markBlocksFree_loop_held {b : Nat} :
    ∀ (m i : Nat) (t : HeapTable), i ≠ b → Held t.entries b →
      Held (heapMarkBlocksFree.loop m i t).entries b
  | 0, _, _, _, h => h
  | m + 1, i, t, hi, h => by
    have hset : Held (t.set i entryFree).entries b :=
      { lt := h.lt
        taken := by
          rw [HeapTable.set_entries, if_neg hi.symm]
          exact h.taken
        first := fun a ha => by
          rw [HeapTable.set_entries]
          split
          · decide
          · exact h.first a ha }
    unfold heapMarkBlocksFree.loop
    dsimp only
    split
    · exact hset
    · -- the chain goes on, so it does not lead to `b`
      rename_i hnext
      exact markBlocksFree_loop_held m (i + 1) _ (fun hb => hnext (h.first i hb)) hset

/-- A free entry stays free. -/
theorem markBlocksFree_loop_free {j : Nat} :
    ∀ (m i : Nat) (t : HeapTable), Free (t.entries j) →
      Free ((heapMarkBlocksFree.loop m i t).entries j)
  | 0, _, _, h => h
  | m + 1, i, t, h => by
    have hset : Free ((t.set i entryFree).entries j) := by
      rw [HeapTable.set_entries]
      split
      · exact free_entryFree
      · exact h
    unfold heapMarkBlocksFree.loop
    dsimp only
    split
    · exact hset
    · exact markBlocksFree_loop_free m (i + 1) _ hset

section

variable {k : Kmem} {b p : Nat}

theorem kfree_entries (hk : k.heap.Kernel) (p : Nat) :
    (kfree k p).heap.table.entries =
      (heapMarkBlocksFree.loop (25600 - freedBlock p) (freedBlock p) k.heap.table).entries := by
  unfold kfree heapFree heapAddressToBlock heapMarkBlocksFree freedBlock
  dsimp only
  rw [follow_heap, hk.saddr, hk.total]

theorem Held.kfree (hk : k.heap.Kernel) (h : Held k.heap.table.entries b) (hp : freedBlock p ≠ b) :
    Held (kfree k p).heap.table.entries b := by
  rw [kfree_entries hk]
  exact markBlocksFree_loop_held _ _ _ hp h

/-- The block a pointer begins at is free after it was freed. -/
theorem kfree_free (hk : k.heap.Kernel) (hb : b < 25600) :
    Free ((kfree k (blockAddr b)).heap.table.entries b) := by
  rw [kfree_entries hk, freedBlock_blockAddr hb, show 25600 - b = (25600 - b - 1) + 1 by omega]
  have hset : Free ((k.heap.table.set b entryFree).entries b) := by
    rw [HeapTable.set_entries, if_pos rfl]
    exact free_entryFree
  unfold heapMarkBlocksFree.loop
  dsimp only
  split
  · exact hset
  · exact markBlocksFree_loop_free _ _ _ hset

theorem Heap.Kernel.kfree (hk : k.heap.Kernel) (p : Nat) : (kfree k p).heap.Kernel := by
  unfold Pandora.kfree
  dsimp only
  rw [follow_heap]
  exact hk.free p

@[simp] theorem follow_denied (k : Kmem) (p : Nat) : (k.follow p).denied = k.denied := by
  unfold Kmem.follow
  split <;> rfl

@[simp] theorem kfree_denied (k : Kmem) (p : Nat) : (kfree k p).denied = k.denied :=
  follow_denied k p

theorem kfree_mem (k : Kmem) (p : Nat) : (kfree k p).mem = k.mem := by
  unfold kfree
  dsimp only
  rw [follow_mem]

end

/-! ## Room -/

/-- A heap whose blocks from `n` on are free, and no allocation was denied so far. -/
structure Kmem.Room (k : Kmem) (n : Nat) : Prop where
  kernel : k.heap.Kernel
  free : ∀ b, n ≤ b → b < 25600 → Free (k.heap.table.entries b)
  denied : k.denied = false

theorem bootKmem_room : bootKmem.Room 0 := ⟨bootKmem_kernel, fun _ _ _ => free_entryFree, rfl⟩

/-- A request of at most one block takes one of the first `n + 1` blocks. -/
theorem Kmem.Room.kzalloc {k : Kmem} {n : Nat} (h : k.Room n) (hn : n < 25600) (size : Nat)
    (h1 : 1 ≤ size) (h2 : size ≤ 4096) :
    ∃ b k', kzalloc k size = (blockAddr b, k') ∧ b < 25600 ∧ k'.Room (n + 1) := by
  rcases kzalloc_page h.kernel size h1 h2 with ⟨b, hb, -, hfirst, he⟩ | ⟨-, hno⟩
  · refine ⟨b, _, he, hb, h.kernel.markBlocksTaken b 1, fun j hj hj' => ?_, h.denied⟩
    have hle : b ≤ n := Nat.le_of_not_lt fun hlt => hfirst n hlt (h.free n (Nat.le_refl n) hn)
    rw [take_heap, markBlocksTaken_one k.heap hb, if_neg (by omega)]
    exact h.free j (by omega) hj'
  · exact absurd (h.free n (Nat.le_refl n) hn) (hno n hn)

theorem Kmem.Room.kfree {k : Kmem} {n : Nat} (h : k.Room n) (p : Nat) : (kfree k p).Room n where
  kernel := h.kernel.kfree p
  free := fun b hb hlt => by
    rw [kfree_entries h.kernel]
    exact markBlocksFree_loop_free _ _ _ (h.free b hb hlt)
  denied := (kfree_denied k p).trans h.denied

theorem Kmem.Room.follow {k : Kmem} {n : Nat} (h : k.Room n) (p : Nat) : (k.follow p).Room n where
  kernel := by
    rw [follow_heap]
    exact h.kernel
  free := by
    rw [follow_heap]
    exact h.free
  denied := (follow_denied k p).trans h.denied

end Pandora
