import Pandora.Heap.Fit
import Pandora.Heap.Held
import Pandora.Paging.Refine

/-!
# Tearing a directory down

`paging_free_4gb` finds the blocks of a directory in the directory itself. `Sharing` is the kernel's
memory with the allocations that others hold in its heap; between the creation of a directory and
its release the calls on it and the calls of the others come in any order (`Activity`).

The invariant is `Standing`: the directory is one, and its blocks are live one-block allocations
beside those of the others. An allocation takes free blocks and a release follows the chain of its
own pointer, so neither meets the directory (`Client.Tame.step`); a call on the directory writes to
its tables only (`PagingOp.step_mapped`). The release then frees the blocks one by one
(`pagingFree4gb_eq`), and each is a chain of its own (`kfreeAll`).
-/

namespace Pandora

open ByteMem

/-! ## Live allocations -/

/-- Every live pointer is the address of a chain of its own. An answer to a request that the heap
ran short of leaves a chain that the end of the table cuts. -/
structure Client.Tame (c : Client) : Prop where
  kernel : c.heap.Kernel
  nodup : (c.live.map Alloc.ptr).Nodup
  chain : ∀ a ∈ c.live, ∃ b, a.ptr = blockAddr b ∧
    IsChain c.heap.table.entries 25600 b (blocksFor a.size)

section

variable {c : Client} (hT : c.Tame)
include hT

theorem Client.Tame.mark {s n size : Nat} (hn : n = blocksFor size) (h1 : 1 ≤ n) (hlt : n < 2 ^ 20)
    (hs : s < 25600)
    (hfree : ∀ i, s ≤ i → i < s + n → i < 25600 → Free (c.heap.table.entries i)) :
    Client.Tame ⟨heapMarkBlocksTaken c.heap s n, ⟨blockAddr s, size⟩ :: c.live⟩ where
  kernel := hT.kernel.markBlocksTaken s n
  nodup := by
    rw [List.map_cons, List.nodup_cons]
    refine ⟨fun hm => ?_, hT.nodup⟩
    obtain ⟨a, ha, he⟩ := List.mem_map.1 hm
    obtain ⟨b, hb, hc⟩ := hT.chain a ha
    obtain rfl : b = s := blockAddr_inj.1 (hb.symm.trans he)
    have hpos := hc.pos
    exact hc.not_free (Nat.le_refl b) (by omega) hs (hfree b (Nat.le_refl b) (by omega) hs)
  chain := by
    have hentries : ∀ j, (heapMarkBlocksTaken c.heap s _).table.entries j = _ :=
      markBlocksTaken_entries h1 (by omega)
    intro a ha
    cases ha with
    | head =>
      refine ⟨s, rfl, hn ▸ h1, hs, fun k hk _ => ?_⟩
      have hk : k < n := hn ▸ hk
      rw [hentries, if_pos (by omega), Nat.add_sub_cancel_left, hn]
    | tail _ ha =>
      obtain ⟨b, hb, hc⟩ := hT.chain a ha
      refine ⟨b, hb, hc.congr fun i hi hin hit => ?_⟩
      rw [hentries, if_neg]
      exact fun hi' => hc.not_free hi hin hit (hfree i hi'.1 hi'.2 hit)

theorem Client.Tame.freed {ptr : Nat} (hp : ∃ a ∈ c.live, a.ptr = ptr) :
    Client.Tame ((HeapOp.free ptr).step c) where
  kernel := hT.kernel.free ptr
  nodup := hT.nodup.sublist (List.filter_sublist.map _)
  chain := by
    obtain ⟨a, ha, rfl⟩ := hp
    obtain ⟨b, hb, hc⟩ := hT.chain a ha
    have hlt := hc.lt
    have hcleared := markBlocksFree_chain (h := hT.kernel.total ▸ hc) (by omega)
    intro a' ha'
    obtain ⟨hm, hne⟩ := List.mem_filter.1 ha'
    obtain ⟨b', hb', hc'⟩ := hT.chain a' hm
    have hbb : b' ≠ b := by
      rintro rfl
      rw [hb, hb'] at hne
      simp at hne
    have hapart := hc'.disjoint hc hbb
    refine ⟨b', hb', hc'.congr fun i hi hin _ => ?_⟩
    have hfree : heapFree c.heap a.ptr = heapMarkBlocksFree c.heap b := by
      rw [hb, ← hT.kernel.blockToAddress hlt, heapFree_low hT.kernel.shape.saddr_lt (by omega)]
    simp only [HeapOp.step]
    rw [hfree, hcleared, if_neg (by omega)]

/-- Any call of a client that keeps its promises, also one that is answered with null or with too
few blocks. -/
theorem Client.Tame.step {op : HeapOp} (hv : op.Valid c) : Client.Tame (op.step c) := by
  cases op with
  | free ptr => exact hT.freed hv
  | malloc size =>
    have h1 := blocksFor_pos hv.1
    have hle := blocksFor_le hv.2
    have hm := heapMallocBlocks_spec c.heap (blocksFor size)
    have htot := hT.kernel.total
    rw [HeapOp.step_malloc hv.2]
    generalize heapMallocBlocks c.heap (blocksFor size) = r at hm ⊢
    cases hm with
    | found s _ hs hrun _ =>
      rw [hT.kernel.blockToAddress (by omega), if_neg (blockAddr_ne_zero s)]
      refine hT.mark rfl h1 (by omega) (by omega) fun i hi hin _ => ?_
      have := hrun (i - s) (by omega)
      rwa [show s + (i - s) = i by omega] at this
    | short s hs htail _ _ =>
      rw [hT.kernel.blockToAddress (by omega), if_neg (blockAddr_ne_zero s)]
      refine hT.mark rfl h1 (by omega) (by omega) fun i hi _ hit => ?_
      have := htail (i - s) (by omega)
      rwa [show s + (i - s) = i by omega] at this
    | none _ _ => exact hT

end

theorem Client.Tame.create {heap h : Heap} {entries : Nat → UInt8}
    (hc : heapCreate heap 0x01000000 0x07400000 ⟨entries, 25600, []⟩ = (allOk, h)) :
    Client.Tame ⟨h, []⟩ where
  kernel := by
    obtain ⟨-, -, -, rfl⟩ := heapCreate_ok hc
    exact ⟨rfl, rfl⟩
  nodup := List.nodup_nil
  chain := fun _ ha => absurd ha List.not_mem_nil

/-! ## Blocks of their own -/

/-- The allocation of the one block `b`. -/
def oneBlock (b : Nat) : Alloc := ⟨blockAddr b, 4096⟩

theorem blocksFor_oneBlock (b : Nat) : blocksFor (oneBlock b).size = 1 :=
  show blocksFor 4096 = 1 by decide

/-- The blocks `T` are live beside the allocations `live`. -/
def Beside (heap : Heap) (live : List Alloc) (T : List Nat) : Prop :=
  Client.Tame ⟨heap, live ++ T.map oneBlock⟩

section

variable {heap : Heap} {live : List Alloc} {T : List Nat}

theorem Beside.entry (h : Beside heap live T) {b : Nat} (hb : b ∈ T) :
    b < 25600 ∧ heap.table.entries b = chainEntry 1 0 := by
  obtain ⟨b', he, hc⟩ := h.chain (oneBlock b)
    (List.mem_append_right _ (List.mem_map_of_mem hb))
  obtain rfl : b = b' := blockAddr_inj.1 he
  rw [blocksFor_oneBlock] at hc
  exact ⟨hc.lt, hc.entry 0 (Nat.zero_lt_one) hc.lt⟩

/-- The calls of the others leave the blocks. -/
theorem Beside.step (h : Beside heap live T) {op : HeapOp} (hv : op.Valid ⟨heap, live⟩) :
    Beside (op.step ⟨heap, live⟩).heap (op.step ⟨heap, live⟩).live T := by
  have hvalid : op.Valid ⟨heap, live ++ T.map oneBlock⟩ := by
    cases op with
    | malloc size => exact hv
    | free ptr =>
      obtain ⟨a, ha, he⟩ := hv
      exact ⟨a, List.mem_append_left _ ha, he⟩
  have hstep := Client.Tame.step h hvalid
  have hlive : (op.step ⟨heap, live ++ T.map oneBlock⟩).live =
      (op.step ⟨heap, live⟩).live ++ T.map oneBlock := by
    cases op with
    | malloc size =>
      simp only [HeapOp.step]
      split <;> rfl
    | free ptr =>
      -- the pointer is not one of the blocks
      obtain ⟨a, ha, rfl⟩ := hv
      have hnodup := h.nodup
      rw [List.map_append, List.nodup_append] at hnodup
      simp only [HeapOp.step]
      rw [List.filter_append]
      refine congrArg _ (List.filter_eq_self.2 fun t ht => ?_)
      rw [decide_eq_true_eq]
      exact fun he => hnodup.2.2 _ (List.mem_map_of_mem ha) _ (List.mem_map_of_mem ht) he.symm
  have hheap : (op.step ⟨heap, live ++ T.map oneBlock⟩).heap = (op.step ⟨heap, live⟩).heap := by
    cases op <;> rfl
  unfold Beside
  rw [← hlive, ← hheap]
  exact hstep

/-- Taking free blocks, each a chain of its own. -/
theorem Client.Tame.beside {heap' : Heap} (h : Client.Tame ⟨heap, live⟩) (hk : heap'.Kernel)
    (hT : T.Nodup)
    (htaken : ∀ b ∈ T, b < 25600 ∧ Free (heap.table.entries b) ∧
      heap'.table.entries b = chainEntry 1 0)
    (hothers : ∀ b < 25600, b ∉ T → heap'.table.entries b = heap.table.entries b) :
    Beside heap' live T where
  kernel := hk
  nodup := by
    rw [List.map_append, List.nodup_append]
    refine ⟨h.nodup, ?_, ?_⟩
    · rw [List.map_map]
      exact hT.map fun b b' he => blockAddr_inj.1 he
    · intro p hp q hq he
      obtain ⟨a, ha, rfl⟩ := List.mem_map.1 hp
      obtain ⟨t, ht, rfl⟩ := List.mem_map.1 hq
      obtain ⟨b, hb, rfl⟩ := List.mem_map.1 ht
      obtain ⟨b', hb', hc⟩ := h.chain a ha
      obtain rfl : b' = b := blockAddr_inj.1 (hb'.symm.trans he)
      have hpos := hc.pos
      exact hc.not_free (Nat.le_refl b') (by omega) hc.lt (htaken b' hb).2.1
  chain := by
    intro a ha
    cases List.mem_append.1 ha with
    | inl ha =>
      obtain ⟨b, hb, hc⟩ := h.chain a ha
      refine ⟨b, hb, hc.congr fun i hi hin hit => hothers i hit fun hm => ?_⟩
      exact hc.not_free hi hin hit (htaken i hm).2.1
    | inr ha =>
      obtain ⟨b, hb, rfl⟩ := List.mem_map.1 ha
      obtain ⟨hlt, -, he⟩ := htaken b hb
      refine ⟨b, rfl, ?_⟩
      rw [blocksFor_oneBlock]
      refine ⟨Nat.le_refl 1, hlt, fun k hk _ => ?_⟩
      obtain rfl : k = 0 := by omega
      exact he

end

/-! ## Release -/

/-- The heap with the entries of `T` cleared one by one. -/
def clearBlocks (heap : Heap) (T : List Nat) : Heap :=
  T.foldl (fun heap b => { heap with table := heap.table.set b entryFree }) heap

theorem clearBlocks_written (T : List Nat) (heap : Heap) :
    (clearBlocks heap T).table.written = T.reverse ++ heap.table.written := by
  induction T generalizing heap with
  | nil => rfl
  | cons b T ih =>
    rw [List.reverse_cons, List.append_assoc]
    exact ih _

theorem clearBlocks_entries (T : List Nat) (heap : Heap) (i : Nat) :
    (clearBlocks heap T).table.entries i = if i ∈ T then entryFree else heap.table.entries i := by
  induction T generalizing heap with
  | nil => rw [if_neg List.not_mem_nil]; rfl
  | cons b T ih =>
    refine (ih _).trans ?_
    rw [HeapTable.set_entries]
    by_cases hT : i ∈ T
    · rw [if_pos hT, if_pos (.tail _ hT)]
    · by_cases hb : i = b
      · rw [if_neg hT, if_pos hb, if_pos (hb ▸ .head _)]
      · rw [if_neg hT, if_neg hb, if_neg (mt List.mem_cons.1 (not_or.2 ⟨hb, hT⟩))]

/-- Freeing a block that is a chain of its own writes its entry. -/
theorem kfree_one {k : Kmem} (hk : k.heap.Kernel) {b : Nat} (hb : b < 25600)
    (he : k.heap.table.entries b = chainEntry 1 0) :
    kfree k (blockAddr b) = { k with heap := clearBlocks k.heap [b] } := by
  have hfree : heapFree k.heap (blockAddr b) = clearBlocks k.heap [b] := by
    rw [← hk.blockToAddress hb, heapFree_low hk.shape.saddr_lt (by omega)]
    unfold heapMarkBlocksFree
    simp only [Word.ofInt_natCast (show b < 2 ^ 32 by omega), hk.total]
    rw [show 25600 - b = 25600 - b - 1 + 1 by omega, heapMarkBlocksFree.loop]
    simp only [he]
    rw [if_pos (chainEntry_hasNext.2 (Nat.le_refl 1))]
    rfl
  unfold kfree
  dsimp only
  rw [follow_blockAddr hb, hfree]

theorem kfreeAll {T : List Nat} {k : Kmem} (hk : k.heap.Kernel) (hT : T.Nodup)
    (he : ∀ b ∈ T, b < 25600 ∧ k.heap.table.entries b = chainEntry 1 0) :
    T.foldl (fun k b => kfree k (blockAddr b)) k =
      { k with heap := clearBlocks k.heap T } := by
  induction T generalizing k with
  | nil => rfl
  | cons b T ih =>
    obtain ⟨hnot, hT⟩ := List.nodup_cons.1 hT
    obtain ⟨hb, heb⟩ := he b (.head _)
    rw [List.foldl_cons, kfree_one hk hb heb]
    refine ih ⟨hk.saddr, hk.total⟩ hT fun b' hb' => ?_
    obtain ⟨hlt, he'⟩ := he b' (.tail _ hb')
    refine ⟨hlt, ?_⟩
    have hne : b' ≠ b := fun h => hnot (h ▸ hb')
    rw [clearBlocks_entries, if_neg (by simpa using hne), he']

/-- The block of an address of the kernel heap. -/
def blockAt (a : Nat) : Nat := (a - 0x01000000) / 4096

theorem InWindow.block {a : Nat} (h : InWindow a) :
    blockAt a < 25600 ∧ Pandora.blockAddr (blockAt a) = a := by
  obtain ⟨hal, hlo, hhi⟩ := h
  unfold blockAt Pandora.blockAddr
  omega

/-- The blocks of a directory, in the order of their release. -/
def directoryBlocks (chunk dir : Nat) (table : Nat → Nat) : List Nat :=
  (List.range 1024).map (fun i => blockAt (table i)) ++ [blockAt dir, blockAt chunk]

section

variable {k : Kmem} {chunk dir f : Nat} {table : Nat → Nat}

theorem PageDir.entry_table {m : Mem} (hd : PageDir m dir f table) {i : Nat} (hi : i < 1024) :
    read32 m (Word.add dir (4 * i)) &&& 0xFFFFF000 = blockAddr (blockAt (table i)) := by
  have hand := (hd.entry_and (p := 1024 * i) (by omega)).1
  rw [Nat.mul_div_cancel_left i (by decide)] at hand
  rw [hand, (hd.window i hi).block.2]

/-- The tables are found in the directory. -/
theorem pagingFree4gb_loop_eq (hc : InWindow chunk) {n i : Nat} (hi : i + n = 1024)
    (hd : PageDir k.mem dir f table) (hdir : read32 k.mem chunk = dir) :
    pagingFree4gb.loop chunk n i k = ((List.range' i n).map fun i => blockAt (table i)).foldl
      (fun k b => kfree k (blockAddr b)) k := by
  induction n generalizing i k with
  | zero => rfl
  | succ n ih =>
    have hchunk : k.follow chunk = k := by
      rw [← hc.block.2]
      exact follow_blockAddr hc.block.1 k
    have hfollow : k.follow dir = k := by
      rw [← hd.dirWindow.block.2]
      exact follow_blockAddr hd.dirWindow.block.1 k
    have htable := hd.entry_table (i := i) (by omega)
    have hmem : (kfree k (blockAddr (blockAt (table i)))).mem = k.mem := kfree_mem k _
    unfold pagingFree4gb.loop
    dsimp only
    rw [hchunk, hdir, hfollow, hdir, htable, List.range'_succ, List.map_cons, List.foldl_cons]
    refine ih (by omega) ?_ ?_
    · rw [hmem]
      exact hd
    · rw [hmem]
      exact hdir

theorem kfreeAll_mem (T : List Nat) (k : Kmem) :
    (T.foldl (fun k b => kfree k (blockAddr b)) k).mem = k.mem := by
  induction T generalizing k with
  | nil => rfl
  | cons b T ih => exact (ih _).trans (kfree_mem k _)

theorem pagingFree4gb_eq (hw : InWindow chunk) (hd : PageDir k.mem dir f table)
    (hc : ChunkOf k.mem chunk dir table) :
    pagingFree4gb k chunk =
      (directoryBlocks chunk dir table).foldl (fun k b => kfree k (blockAddr b)) k := by
  have hloop := pagingFree4gb_loop_eq hw (Nat.zero_add 1024) hd hc.directory
  rw [← List.range_eq_range'] at hloop
  unfold pagingFree4gb directoryBlocks
  dsimp only
  rw [hloop, kfreeAll_mem, hc.directory, List.foldl_append, List.foldl_cons, List.foldl_cons,
    List.foldl_nil, hd.dirWindow.block.2, hw.block.2]

end

/-! ## Calls in between -/

/-- The arguments are 32-bit patterns. -/
def PagingOp.Words : PagingOp → Prop
  | set virt val => virt < 2 ^ 32 ∧ val < 2 ^ 32
  | map virt phys flags => virt < 2 ^ 32 ∧ phys < 2 ^ 32 ∧ flags < 2 ^ 32
  | mapRange virt phys _ flags => virt < 2 ^ 32 ∧ phys < 2 ^ 32 ∧ flags < 2 ^ 32
  | mapTo virt phys physEnd flags =>
    virt < 2 ^ 32 ∧ phys < 2 ^ 32 ∧ physEnd < 2 ^ 32 ∧ flags < 2 ^ 32

section

variable {m : Mem} {chunk dir f virt phys flags : Nat} {table : Nat → Nat}

theorem pagingMap_keeps (hd : PageDir m dir f table) (hc : ChunkOf m chunk dir table)
    (hv : virt < 2 ^ 32) (hp : phys < 2 ^ 32) (hf : flags < 2 ^ 32) :
    ∃ M, Mapped m (pagingMap m chunk virt phys flags).2 dir f table M := by
  by_cases hal : virt % 4096 ≠ 0 ∨ phys % 4096 ≠ 0
  · rw [pagingMap_rejected hal]
    exact ⟨_, .refl hd⟩
  · have hval : phys ||| flags < 2 ^ 32 := Nat.or_lt_two_pow hp hf
    obtain ⟨m', he, hm⟩ := pagingSet_mapped hd hv (by omega) hval
    unfold pagingMap
    rw [if_neg hal, hc.directory, he]
    exact ⟨_, hm⟩

theorem pagingMapRange_loop_keeps (hf : flags < 2 ^ 32) {n : Nat} {res : Int}
    (hd : PageDir m dir f table) (hc : ChunkOf m chunk dir table) (hv : virt < 2 ^ 32)
    (hp : phys < 2 ^ 32) :
    ∃ M, Mapped m (pagingMapRange.loop chunk flags n virt phys res m).2 dir f table M := by
  induction n generalizing m virt phys res with
  | zero => exact ⟨_, .refl hd⟩
  | succ n ih =>
    obtain ⟨M, hm⟩ := pagingMap_keeps hd hc hv hp hf
    unfold pagingMapRange.loop
    obtain ⟨⟨res', m'⟩, hr⟩ : ∃ r, pagingMap m chunk virt phys flags = r := ⟨_, rfl⟩
    rw [hr] at hm ⊢
    dsimp only at hm ⊢
    split
    · exact ⟨M, hm⟩
    · obtain ⟨M', hm'⟩ := ih hm.pageDir (hc.mapped hm) (Word.add_lt virt 4096)
        (Word.add_lt phys 4096)
      exact ⟨M', hm.trans hm'⟩

/-- A call on the directory writes to its tables only. -/
theorem PagingOp.step_mapped (hd : PageDir m dir f table) (hc : ChunkOf m chunk dir table)
    {op : PagingOp} (hw : op.Words) : ∃ M, Mapped m (op.step chunk m) dir f table M := by
  unfold PagingOp.step
  cases op with
  | set virt val =>
    obtain ⟨hv, hval⟩ := hw
    dsimp only [PagingOp.run, paging4gbChunkGetDirectory]
    rw [hc.directory]
    by_cases hal : virt % 4096 = 0
    · obtain ⟨m', he, hm⟩ := pagingSet_mapped hd hv hal hval
      rw [he]
      exact ⟨_, hm⟩
    · rw [pagingSet_rejected hal]
      exact ⟨_, .refl hd⟩
  | map virt phys flags =>
    obtain ⟨hv, hp, hf⟩ := hw
    exact pagingMap_keeps hd hc hv hp hf
  | mapRange virt phys count flags =>
    obtain ⟨hv, hp, hf⟩ := hw
    exact pagingMapRange_loop_keeps hf hd hc hv hp
  | mapTo virt phys physEnd flags =>
    obtain ⟨hv, hp, -, hf⟩ := hw
    dsimp only [PagingOp.run]
    unfold pagingMapTo
    split
    · exact ⟨_, .refl hd⟩
    split
    · exact ⟨_, .refl hd⟩
    split
    · exact ⟨_, .refl hd⟩
    split
    · exact ⟨_, .refl hd⟩
    · exact pagingMapRange_loop_keeps hf hd hc hv hp

end

/-- The kernel's memory, and what others than the directory hold in its heap. -/
structure Sharing where
  kmem : Kmem
  live : List Alloc

/-- What may happen between the creation of a directory and its release: a call on it, an allocation
or a release by others, a byte that they store. -/
inductive Activity where
  | paging (op : PagingOp)
  | heap (op : HeapOp)
  | store (addr : Nat) (val : UInt8)
deriving DecidableEq, Repr

def Activity.step (chunk : Nat) (s : Sharing) : Activity → Sharing
  | paging op => { s with kmem := { s.kmem with mem := op.step chunk s.kmem.mem } }
  | heap op =>
    let c := op.step ⟨s.kmem.heap, s.live⟩
    { kmem := { s.kmem with heap := c.heap }, live := c.live }
  | store addr val => { s with kmem := { s.kmem with mem := Function.update s.kmem.mem addr val } }

/-- Others ask for at least one byte, and free and write only what they hold. -/
def Activity.Valid (s : Sharing) : Activity → Prop
  | paging op => op.Words
  | heap op => op.Valid ⟨s.kmem.heap, s.live⟩
  | store addr _ => ∃ a ∈ s.live, a.ptr ≤ addr ∧ addr < a.ptr + a.size

/-- The directory stands (module doc). -/
structure Standing (chunk dir f : Nat) (table : Nat → Nat) (s : Sharing) : Prop where
  pageDir : PageDir s.kmem.mem dir f table
  chunkOf : ChunkOf s.kmem.mem chunk dir table
  window : InWindow chunk
  blocks : Beside s.kmem.heap s.live (directoryBlocks chunk dir table)

section

variable {k k' : Kmem} {s : Sharing} {chunk dir f : Nat} {table : Nat → Nat}

theorem mem_directoryBlocks {b : Nat} : b ∈ directoryBlocks chunk dir table ↔
    (∃ i < 1024, b = blockAt (table i)) ∨ b = blockAt dir ∨ b = blockAt chunk := by
  unfold directoryBlocks
  simp [eq_comm]

/-- What others hold is apart from the blocks of the directory. -/
theorem Beside.apart {heap : Heap} {live : List Alloc} {T : List Nat} (h : Beside heap live T)
    {a : Alloc} (ha : a ∈ live) {b addr : Nat} (hb : b ∈ T) (hlo : a.ptr ≤ addr)
    (hhi : addr < a.ptr + a.size) : addr < blockAddr b ∨ blockAddr b + 4096 ≤ addr := by
  obtain ⟨b', he, hc⟩ := h.chain a (List.mem_append_left _ ha)
  obtain ⟨b'', he'', hc''⟩ := h.chain (oneBlock b) (List.mem_append_right _ (List.mem_map_of_mem hb))
  obtain rfl : b = b'' := blockAddr_inj.1 he''
  rw [blocksFor_oneBlock] at hc''
  have hnodup := h.nodup
  rw [List.map_append, List.nodup_append] at hnodup
  have hne : b' ≠ b := by
    rintro rfl
    exact hnodup.2.2 _ (List.mem_map_of_mem ha) _
      (List.mem_map_of_mem (List.mem_map_of_mem hb)) he
  have := hc.disjoint hc'' hne
  have := le_blocksFor a.size
  unfold blockAddr at he ⊢
  omega

theorem Standing.step (h : Standing chunk dir f table s) {act : Activity} (hv : act.Valid s) :
    Standing chunk dir f table (act.step chunk s) := by
  cases act with
  | paging op =>
    obtain ⟨M, hm⟩ := op.step_mapped h.pageDir h.chunkOf hv
    exact ⟨hm.pageDir, h.chunkOf.mapped hm, h.window, h.blocks⟩
  | heap op => exact ⟨h.pageDir, h.chunkOf, h.window, h.blocks.step hv⟩
  | store addr val =>
    obtain ⟨a, ha, hlo, hhi⟩ := hv
    have hdir := h.blocks.apart ha (mem_directoryBlocks.2 (.inr (.inl rfl))) hlo hhi
    have hchunk := h.blocks.apart ha (mem_directoryBlocks.2 (.inr (.inr rfl))) hlo hhi
    rw [h.pageDir.dirWindow.block.2] at hdir
    rw [h.window.block.2] at hchunk
    refine ⟨h.pageDir.congr fun x hx hx' => ?_, ⟨?_, h.chunkOf.apart⟩, h.window, h.blocks⟩
    · exact Function.update_of_ne (by omega) _ _
    · rw [← h.chunkOf.directory]
      exact read32_congr fun j hj => Function.update_of_ne (by omega) _ _

end

/-! ## From creation to release -/

/-- `T` are the blocks that `paging_new_4gb` took between `k` and `k'`: those of the tables, of the
directory and of the chunk. -/
structure TookBlocks (k k' : Kmem) (chunk : Nat) (T : List Nat) : Prop where
  count : T.length = 1026
  nodup : T.Nodup
  parts : T.map blockAddr = (List.range 1024).map (fun i =>
      read32 k'.mem (Word.add (read32 k'.mem chunk) (4 * i)) &&& 0xFFFFF000) ++
    [read32 k'.mem chunk, chunk]
  taken : ∀ b, b ∈ T ↔
    b < 25600 ∧ Free (k.heap.table.entries b) ∧ ¬ Free (k'.heap.table.entries b)
  others : ∀ b, b ∉ T → k'.heap.table.entries b = k.heap.table.entries b

/-- Between `k` and `k'` the blocks `T`, all taken, were freed: each was written once, and no other
entry was. -/
structure FreedBlocks (k k' : Kmem) (T : List Nat) : Prop where
  taken : ∀ b ∈ T, ¬ Free (k.heap.table.entries b)
  once : k'.heap.table.written = T.reverse ++ k.heap.table.written
  entries : ∀ b, k'.heap.table.entries b = if b ∈ T then entryFree else k.heap.table.entries b

section

variable {k k' : Kmem} {flags chunk dir : Nat} {table : Nat → Nat}

theorem InWindow.eq_block {a b : Nat} (h : InWindow a) :
    Pandora.blockAddr b = a ↔ b = blockAt a :=
  ⟨fun he => blockAddr_inj.1 (he.trans h.block.2.symm), fun he => he ▸ h.block.2⟩

theorem PageDir.map_tables {m : Mem} {f n : Nat} (hd : PageDir m dir f table) (hn : n ≤ 1024) :
    ((List.range n).map fun i => blockAt (table i)).map blockAddr =
      (List.range n).map fun i => read32 m (Word.add dir (4 * i)) &&& 0xFFFFF000 := by
  rw [List.map_map]
  refine List.map_congr_left fun i hi => ?_
  have hi' := List.mem_range.1 hi
  rw [Function.comp_apply, hd.entry_table (by omega)]

theorem NewPaging.mem_blocks (h : NewPaging k k' flags chunk dir table) {b : Nat} :
    b ∈ directoryBlocks chunk dir table ↔
      blockAddr b = dir ∨ blockAddr b = chunk ∨ ∃ j < 1024, blockAddr b = table j := by
  have htable : (∃ j < 1024, blockAddr b = table j) ↔ ∃ j < 1024, b = blockAt (table j) :=
    exists_congr fun j => and_congr_right fun hj => (h.pageDir.window j hj).eq_block
  have hdir := h.pageDir.dirWindow.eq_block (b := b)
  have hchunk := h.chunkWindow.eq_block (b := b)
  refine mem_directoryBlocks.trans ?_
  exact (or_congr htable.symm (or_congr hdir.symm hchunk.symm)).trans (or_comm.trans or_assoc)

theorem NewPaging.tookBlocks (h : NewPaging k k' flags chunk dir table) :
    TookBlocks k k' chunk (directoryBlocks chunk dir table) where
  count := by simp [directoryBlocks]
  nodup := by
    have hd := h.pageDir
    have hne : ∀ {a a' : Nat}, InWindow a → InWindow a' → a ≠ a' → blockAt a ≠ blockAt a' :=
      fun ha ha' hne he => hne (by rw [← ha.block.2, ← ha'.block.2, he])
    unfold directoryBlocks
    rw [List.nodup_append]
    refine ⟨List.nodup_range.map_on fun i hi j hj he => ?_, ?_, ?_⟩
    · rw [List.mem_range] at hi hj
      by_contra hij
      exact hne (hd.window i hi) (hd.window j hj) (fun he => hij (hd.inj i hi j hj he)) he
    · simpa using hne hd.dirWindow h.chunkWindow (Ne.symm h.chunk_ne_dir)
    · intro b hb b' hb'
      obtain ⟨i, hi, rfl⟩ := List.mem_map.1 hb
      rw [List.mem_range] at hi
      have hapart := h.chunkOf.apart i hi
      have hchunk : table i ≠ chunk := by omega
      simp only [List.mem_cons, List.not_mem_nil, or_false] at hb'
      rcases hb' with rfl | rfl
      · exact hne (hd.window i hi) hd.dirWindow (hd.ne_dir i hi)
      · exact hne (hd.window i hi) h.chunkWindow hchunk
  parts := by
    rw [h.chunkOf.directory]
    unfold directoryBlocks
    rw [List.map_append, h.pageDir.map_tables (Nat.le_refl 1024), List.map_cons, List.map_cons,
      List.map_nil, h.pageDir.dirWindow.block.2, h.chunkWindow.block.2]
  taken := by
    intro b
    rw [h.mem_blocks]
    constructor
    · intro hb
      have hlt : b < 25600 := by
        rcases h.mem_blocks.2 hb |> mem_directoryBlocks.1 with ⟨i, hi, rfl⟩ | rfl | rfl
        · exact (h.pageDir.window i hi).block.1
        · exact h.pageDir.dirWindow.block.1
        · exact h.chunkWindow.block.1
      obtain ⟨hfree, he⟩ := h.taken b hlt hb
      exact ⟨hlt, hfree, he ▸ chainEntry_not_free 1 0⟩
    · rintro ⟨-, hfree, htaken⟩
      by_contra hno
      simp only [not_or, not_exists, not_and] at hno
      exact htaken (h.others b hno.1 hno.2.1 hno.2.2 ▸ hfree)
  others := by
    intro b hb
    rw [h.mem_blocks] at hb
    simp only [not_or, not_exists, not_and] at hb
    exact h.others b hb.1 hb.2.1 hb.2.2

theorem NewPaging.standing (h : NewPaging k k' flags chunk dir table) {live : List Alloc}
    (hT : Client.Tame ⟨k.heap, live⟩) :
    Standing chunk dir (flags ||| pagingIsWriteable) table ⟨k', live⟩ where
  pageDir := h.pageDir
  chunkOf := h.chunkOf
  window := h.chunkWindow
  blocks := hT.beside h.kernel h.tookBlocks.nodup
    (fun b hb => by
      have hlt := (h.tookBlocks.taken b).1 hb
      exact ⟨hlt.1, h.taken b hlt.1 (h.mem_blocks.1 hb)⟩)
    fun b _ hb => h.tookBlocks.others b hb

/-- A standing directory is freed block by block. -/
theorem Standing.freed {s : Sharing} {f : Nat} (h : Standing chunk dir f table s)
    (hT : (directoryBlocks chunk dir table).Nodup) :
    FreedBlocks s.kmem (pagingFree4gb s.kmem chunk) (directoryBlocks chunk dir table) := by
  rw [pagingFree4gb_eq h.window h.pageDir h.chunkOf,
    kfreeAll h.blocks.kernel hT fun b hb => h.blocks.entry hb]
  obtain ⟨T, hT'⟩ : ∃ T, directoryBlocks chunk dir table = T := ⟨_, rfl⟩
  have hblocks := h.blocks
  rw [hT'] at hblocks ⊢
  refine ⟨fun b hb => ?_, clearBlocks_written T _, clearBlocks_entries T _⟩
  rw [(hblocks.entry hb).2]
  exact chainEntry_not_free 1 0

/-- **Directories are torn down exactly.** After any calls on the kernel's heap, where
`paging_new_4gb` gets its blocks, and after any calls on the new directory, any allocations and
releases by others and any bytes that others store into what they hold, in any order:
`paging_free_4gb` frees the 1026 blocks that `paging_new_4gb` took, each once, and changes no other
entry of the table. -/
theorem paging_free_4gb_exact {heap h : Heap} {entries : Nat → UInt8}
    (hc : heapCreate heap 0x01000000 0x07400000 ⟨entries, 25600, []⟩ = (allOk, h))
    {ops : List HeapOp} (hops : Run.Steps HeapOp.step HeapOp.Valid ⟨h, []⟩ ops)
    (hk : k.heap = (Run.exec HeapOp.step ⟨h, []⟩ ops).heap) (hf : flags < 256)
    (hnew : pagingNew4gb k flags = (chunk, k')) (hserved : chunk ≠ 0) {acts : List Activity}
    (hacts : Run.Steps (Activity.step chunk) Activity.Valid
      ⟨k', (Run.exec HeapOp.step ⟨h, []⟩ ops).live⟩ acts) :
    ∃ T, TookBlocks k k' chunk T ∧
      let s := Run.exec (Activity.step chunk) ⟨k', (Run.exec HeapOp.step ⟨h, []⟩ ops).live⟩ acts
      FreedBlocks s.kmem (pagingFree4gb s.kmem chunk) T := by
  have htame : Client.Tame (Run.exec HeapOp.step ⟨h, []⟩ ops) :=
    Run.Steps.inv (fun _ _ hT hv => hT.step hv) (.create hc) hops
  obtain ⟨c, hcl⟩ : ∃ c, Run.exec HeapOp.step ⟨h, []⟩ ops = c := ⟨_, rfl⟩
  rw [hcl] at htame hk hacts ⊢
  have htame' : Client.Tame ⟨k.heap, c.live⟩ := hk ▸ htame
  rcases pagingNew4gb_cases htame'.kernel (show flags < 4096 by omega) with
    ⟨chunk', k'', dir, table, he, hpaging⟩ | ⟨-, k'', he, -⟩
  · obtain ⟨rfl, rfl⟩ := Prod.mk.inj (hnew.symm.trans he)
    have hstanding := Run.Steps.inv (fun _ _ hS hv => hS.step hv) (hpaging.standing htame') hacts
    exact ⟨_, hpaging.tookBlocks, hstanding.freed hpaging.tookBlocks.nodup⟩
  · exact absurd (Prod.mk.inj (hnew.symm.trans he)).1 hserved

end

/-- The kernel's memory right after `kheap_init`. -/
def freshKmem : Kmem := { heap := kernelHeap, mem := fun _ => 0 }

theorem freshKmem_served : (pagingNew4gb freshKmem 5).1 ≠ 0 := by
  have hk : freshKmem.heap.Kernel := ⟨rfl, rfl⟩
  have hfree : freeBlocks freshKmem.heap = Finset.range 25600 := by
    ext b
    rw [mem_freeBlocks, Finset.mem_range]
    refine and_iff_left_of_imp fun hb => ?_
    have he : freshKmem.heap.table.entries b = entryFree := if_pos hb
    rw [he]
    exact free_entryFree
  have hcard : 1026 ≤ (freeBlocks freshKmem.heap).card := by
    rw [hfree, Finset.card_range]
    decide
  obtain ⟨dir, table, hpaging⟩ := exists_newPaging hk (show 5 < 4096 by decide) hcard
  intro h0
  have hlo := hpaging.chunkWindow.lo
  rw [h0] at hlo
  exact absurd hlo (by decide)

/-- A mapping, then an allocation by others. -/
theorem paging_free_4gb_exact_fresh :
    ∃ T, TookBlocks freshKmem (pagingNew4gb freshKmem 5).2 (pagingNew4gb freshKmem 5).1 T ∧
      let s := Run.exec (Activity.step (pagingNew4gb freshKmem 5).1)
        ⟨(pagingNew4gb freshKmem 5).2, (Run.exec HeapOp.step ⟨kernelHeap, []⟩ []).live⟩
        [.paging (.map 0x400000 0 7), .heap (.malloc 4096)]
      FreedBlocks s.kmem (pagingFree4gb s.kmem (pagingNew4gb freshKmem 5).1) T :=
  paging_free_4gb_exact kernelHeap_create (Run.steps_nil _ _) rfl (show 5 < 256 by decide)
    Prod.mk.eta.symm freshKmem_served
    ⟨⟨by decide, by decide, by decide⟩, ⟨by decide, by decide⟩, trivial⟩

end Pandora
