import Pandora.Paging.Map

/-!
# `paging_new_4gb`

`Building k₀ k dir flags i table`: from the memory `k₀`, in which the directory has just been
allocated, the loop has built the first `i` tables. A table that could not be allocated is null and
its entries went to the page at address 0; the heap is full then and the ghost `fault` is set. The
other tables are distinct blocks that were free in `k₀`, and nothing outside them and the directory
has changed. `building_loop` carries this through the 1024 iterations.
`Building` has a part about the heap (`TableBlocks`) and one about the memory (`TableWords`).
`pagingNew4gb_pageDir` reads the result off it where directory and tables are in the heap window;
`pagingNew4gb_new` where the chunk could be allocated, hence everything before it.
-/

namespace Pandora

open ByteMem

/-! ## One table -/

/-- The inner loop writes the entries of one table and nothing else. -/
theorem pagingNew4gb_fill {entry flags : Nat} (offset : Nat) (he : entry + 4096 ≤ 2 ^ 32)
    (hf : flags < 4096) :
    ∀ (n b : Nat) (m : Mem), b + n = 1024 →
      (∀ x, x < entry + 4 * b ∨ entry + 4096 ≤ x →
        pagingNew4gb.fill entry offset flags n b m x = m x) ∧
      ∀ c, b ≤ c → c < 1024 →
        read32 (pagingNew4gb.fill entry offset flags n b m) (entry + 4 * c) =
          Word.add offset (c * 4096) ||| flags
  | 0, b, m, hb => ⟨fun _ _ => rfl, fun c _ _ => by omega⟩
  | n + 1, b, m, hb => by
    unfold pagingNew4gb.fill
    rw [Word.add_of_lt (by omega)]
    obtain ⟨hout, hin⟩ := pagingNew4gb_fill offset he hf n (b + 1)
      (write32 m (entry + 4 * b) (Word.add offset (b * 4096) ||| flags)) (by omega)
    refine ⟨fun x hx => ?_, fun c hc hc' => ?_⟩
    · rw [hout x (by omega), write32_apply (by omega)]
    · by_cases hcb : c = b
      · subst hcb
        have hlt : Word.add offset (c * 4096) ||| flags < 2 ^ 32 :=
          Nat.or_lt_two_pow (Word.add_lt _ _) (by omega)
        exact (read32_congr fun j hj => hout _ (by omega)).trans (read32_write32 _ _ hlt)
      · exact hin c (by omega) hc'

/-- The memory after one round of the loop: the table `entry` and the directory entry `i`. -/
def tableMem (m : Mem) (dir flags i entry : Nat) : Mem :=
  write32 (pagingNew4gb.fill entry (i * 4194304) flags 1024 0 m) (dir + 4 * i)
    (entry ||| flags ||| pagingIsWriteable)

section

variable {m : Mem} {dir flags i entry x : Nat}

theorem tableMem_outside (he : entry + 4096 ≤ 2 ^ 32) (hf : flags < 4096)
    (hx : x < entry ∨ entry + 4096 ≤ x) (hd : x < dir + 4 * i ∨ dir + 4 * i + 4 ≤ x) :
    tableMem m dir flags i entry x = m x := by
  unfold tableMem
  rw [write32_apply hd, (pagingNew4gb_fill _ he hf 1024 0 m rfl).1 x (by omega)]

theorem tableMem_page (he : entry + 4096 ≤ 2 ^ 32) (hf : flags < 4096) (hi : i < 1024)
    (hd : dir + 4096 ≤ entry ∨ entry + 4096 ≤ dir) {b : Nat} (hb : b < 1024) :
    read32 (tableMem m dir flags i entry) (entry + 4 * b) = 4096 * (1024 * i + b) ||| flags := by
  unfold tableMem
  rw [read32_write32_of_disjoint (by omega),
    (pagingNew4gb_fill _ he hf 1024 0 m rfl).2 b (by omega) hb, Word.add_of_lt (by omega)]
  congr 1
  omega

theorem or_writeable_lt (hf : flags < 4096) : flags ||| pagingIsWriteable < 4096 :=
  Nat.or_lt_two_pow (n := 12) hf (by decide)

theorem tableMem_entry (he : entry + 4096 ≤ 2 ^ 32) (hal : entry % 4096 = 0) (hf : flags < 4096) :
    read32 (tableMem m dir flags i entry) (dir + 4 * i) = entry + (flags ||| pagingIsWriteable) := by
  have hlt := or_writeable_lt hf
  unfold tableMem
  rw [Nat.or_assoc, Word.or_flags hal hlt, read32_write32 _ _ (by omega)]

end

/-! ## The blocks of the tables -/

/-- The nonnull tables among the first `i` are distinct blocks taken since the heap `h₀`. -/
structure TableBlocks (h₀ h : Heap) (i : Nat) (table : Nat → Nat) : Prop where
  kernel : h.Kernel
  block : ∀ j < i, table j ≠ 0 → ∃ b < 25600, table j = blockAddr b ∧
    Free (h₀.table.entries b) ∧ h.table.entries b = chainEntry 1 0
  inj : ∀ j < i, ∀ j' < i, table j = table j' → table j ≠ 0 → j = j'
  others : ∀ b, (∀ j < i, table j ≠ blockAddr b) → h.table.entries b = h₀.table.entries b
  full : (∃ j < i, table j = 0) → ∀ b < 25600, ¬ Free (h.table.entries b)

/-- The tables with `a` as number `i`. -/
abbrev setTable (table : Nat → Nat) (i a : Nat) : Nat → Nat := Function.update table i a

section

variable {h₀ h : Heap} {i b : Nat} {table : Nat → Nat}

theorem TableBlocks.init (hk : h₀.Kernel) (table : Nat → Nat) : TableBlocks h₀ h₀ 0 table where
  kernel := hk
  block := fun _ hj => absurd hj (Nat.not_lt_zero _)
  inj := fun _ hj => absurd hj (Nat.not_lt_zero _)
  others := fun _ _ => rfl
  full := fun ⟨_, hj, _⟩ => absurd hj (Nat.not_lt_zero _)

/-- A free block is none of the tables, and was free before them. -/
theorem TableBlocks.of_free (ht : TableBlocks h₀ h i table) (hb : Free (h.table.entries b)) :
    (∀ j < i, table j ≠ blockAddr b) ∧ Free (h₀.table.entries b) := by
  have htab : ∀ j < i, table j ≠ blockAddr b := fun j hj he => by
    obtain ⟨b', -, hb', -, hchain⟩ := ht.block j hj (he ▸ blockAddr_ne_zero b)
    obtain rfl : b = b' := blockAddr_inj.1 (he.symm.trans hb')
    exact chainEntry_not_free 1 0 (hchain ▸ hb)
  exact ⟨htab, ht.others b htab ▸ hb⟩

theorem setTable_of_lt {j a : Nat} (hj : j < i) : setTable table i a j = table j :=
  Function.update_of_ne (by omega) _ _

theorem TableBlocks.snoc_null (ht : TableBlocks h₀ h i table)
    (hfull : ∀ b < 25600, ¬ Free (h.table.entries b)) :
    TableBlocks h₀ h (i + 1) (setTable table i 0) where
  kernel := ht.kernel
  block := fun j hj h0 => by
    rcases Nat.lt_succ_iff_lt_or_eq.1 hj with hj | rfl
    · rw [setTable_of_lt hj] at h0 ⊢
      exact ht.block j hj h0
    · exact absurd (Function.update_self _ _ _) h0
  inj := fun j hj j' hj' he h0 => by
    rcases Nat.lt_succ_iff_lt_or_eq.1 hj with hj | rfl
    · rcases Nat.lt_succ_iff_lt_or_eq.1 hj' with hj' | rfl
      · rw [setTable_of_lt hj] at he h0
        exact ht.inj j hj j' hj' (he.trans (setTable_of_lt hj')) h0
      · exact absurd (he.trans (Function.update_self _ _ _)) h0
    · exact absurd (Function.update_self _ _ _) h0
  others := fun b hb => ht.others b fun j hj => by
    have := hb j (by omega)
    rwa [setTable_of_lt hj] at this
  full := fun _ => hfull

theorem TableBlocks.snoc_block (ht : TableBlocks h₀ h i table) (hb : b < 25600)
    (hfree : Free (h.table.entries b)) :
    TableBlocks h₀ (heapMarkBlocksTaken h b 1) (i + 1) (setTable table i (blockAddr b)) where
  kernel := ht.kernel.markBlocksTaken b 1
  block := fun j hj h0 => by
    rcases Nat.lt_succ_iff_lt_or_eq.1 hj with hj | rfl
    · rw [setTable_of_lt hj] at h0 ⊢
      obtain ⟨b', hb', he, hf, hchain⟩ := ht.block j hj h0
      exact ⟨b', hb', he, hf, by rw [markBlocksTaken_one _ hb, hchain, ite_self]⟩
    · exact ⟨b, hb, Function.update_self _ _ _, (ht.of_free hfree).2, by
        rw [markBlocksTaken_one _ hb, if_pos rfl]⟩
  inj := fun j hj j' hj' he h0 => by
    have hne := (ht.of_free hfree).1
    rcases Nat.lt_succ_iff_lt_or_eq.1 hj with hj | rfl
    · rcases Nat.lt_succ_iff_lt_or_eq.1 hj' with hj' | rfl
      · rw [setTable_of_lt hj] at he h0
        exact ht.inj j hj j' hj' (he.trans (setTable_of_lt hj')) h0
      · rw [setTable_of_lt hj] at he
        exact absurd (he.trans (Function.update_self _ _ _)) (hne j hj)
    · rcases Nat.lt_succ_iff_lt_or_eq.1 hj' with hj' | rfl
      · rw [setTable_of_lt hj'] at he
        exact absurd (he.symm.trans (Function.update_self _ _ _)) (hne j' hj')
      · rfl
  others := fun b' hb' => by
    have hne := hb' i (by omega)
    rw [setTable, Function.update_self, Ne, blockAddr_inj] at hne
    rw [markBlocksTaken_one _ hb, if_neg (Ne.symm hne)]
    refine ht.others b' fun j hj => ?_
    have := hb' j (by omega)
    rwa [setTable_of_lt hj] at this
  full := by
    rintro ⟨j, hj, h0⟩
    rcases Nat.lt_succ_iff_lt_or_eq.1 hj with hj | rfl
    · rw [setTable_of_lt hj] at h0
      exact absurd hfree (ht.full ⟨j, hj, h0⟩ b hb)
    · exact absurd ((Function.update_self _ _ _).symm.trans h0) (blockAddr_ne_zero b)

end

/-! ## The words of the tables -/

/-- The first `i` directory entries lead to tables that map every page to itself, and nothing else
has changed since `m₀`. The entries of a null table may have been overwritten. -/
structure TableWords (m₀ m : Mem) (dir flags i : Nat) (table : Nat → Nat) : Prop where
  entry : ∀ j < i, read32 m (dir + 4 * j) = table j + (flags ||| pagingIsWriteable)
  page : ∀ j < i, table j ≠ 0 → ∀ b < 1024,
    read32 m (table j + 4 * b) = 4096 * (1024 * j + b) ||| flags
  outside : ∀ x < 2 ^ 32, 4096 ≤ x → (x < dir ∨ dir + 4096 ≤ x) →
    (∀ j < i, table j ≠ 0 → x < table j ∨ table j + 4096 ≤ x) → m x = m₀ x

section

variable {m₀ m m' : Mem} {dir flags i a : Nat} {table : Nat → Nat}

theorem TableWords.init (table : Nat → Nat) : TableWords m₀ m₀ dir flags 0 table where
  entry := fun _ hj => absurd hj (Nat.not_lt_zero _)
  page := fun _ hj => absurd hj (Nat.not_lt_zero _)
  outside := fun _ _ _ _ _ => rfl

/-- A round writes the table `a`, null or a page of the window, and the directory entry `i`. -/
theorem TableWords.snoc (h : TableWords m₀ m dir flags i table) (hi : i < 1024)
    (hf : flags < 4096) (hdir : InWindow dir) (ha : a = 0 ∨ InWindow a) (hda : a ≠ dir)
    (htab : ∀ j < i, table j ≠ 0 → InWindow (table j) ∧ table j ≠ dir ∧ table j ≠ a)
    (hout : ∀ x < 2 ^ 32, x < a ∨ a + 4096 ≤ x → m' x = m x) :
    TableWords m₀ (tableMem m' dir flags i a) dir flags (i + 1) (setTable table i a) := by
  have hdlo := hdir.lo
  have hdhi := hdir.hi
  have he : a + 4096 ≤ 2 ^ 28 := by
    rcases ha with rfl | ha
    · decide
    · have := ha.hi
      have := ha.aligned
      omega
  have hal : a % 4096 = 0 := by
    rcases ha with rfl | ha
    · rfl
    · exact ha.aligned
  -- a window page other than `a` is apart from it
  have hapart : ∀ t, InWindow t → t ≠ a → a + 4096 ≤ t ∨ t + 4096 ≤ a := fun t ht hne => by
    rcases ha with rfl | ha
    · have := ht.lo
      omega
    · exact ha.disjoint ht (Ne.symm hne)
  have hkeep : ∀ x < 2 ^ 32, x < a ∨ a + 4096 ≤ x → x < dir + 4 * i ∨ dir + 4 * i + 4 ≤ x →
      tableMem m' dir flags i a x = m x := fun x hx hxa hxd => by
    rw [tableMem_outside (by omega) hf hxa hxd, hout x hx hxa]
  have hd := hapart dir hdir (Ne.symm hda)
  refine ⟨fun j hj => ?_, fun j hj h0 b hb => ?_, fun x hx hlo hxd hxt => ?_⟩
  · rcases Nat.lt_succ_iff_lt_or_eq.1 hj with hj | rfl
    · rw [setTable_of_lt hj, ← h.entry j hj]
      exact read32_congr fun c hc => hkeep _ (by omega) (by omega) (by omega)
    · rw [setTable, Function.update_self, tableMem_entry (by omega) hal hf]
  · rcases Nat.lt_succ_iff_lt_or_eq.1 hj with hj | rfl
    · rw [setTable_of_lt hj] at h0 ⊢
      obtain ⟨hw, hne, hna⟩ := htab j hj h0
      have := hw.hi
      have := hw.disjoint hdir hne
      have := hapart _ hw hna
      rw [← h.page j hj h0 b hb]
      exact read32_congr fun c hc => hkeep _ (by omega) (by omega) (by omega)
    · rw [setTable, Function.update_self]
      exact tableMem_page (by omega) hf hi (by omega) hb
  · have hxa : x < a ∨ a + 4096 ≤ x := by
      rcases ha with rfl | ha
      · omega
      · have := hxt i (by omega)
        rw [setTable, Function.update_self] at this
        exact this fun h0 => not_inWindow_zero (h0 ▸ ha)
    rw [hkeep x hx hxa (by omega)]
    refine h.outside x hx hlo hxd fun j hj h0 => ?_
    have := hxt j (by omega)
    rw [setTable_of_lt hj] at this
    exact this h0

end

/-! ## The loop over the tables -/

structure Building (k₀ k : Kmem) (dir flags i : Nat) (table : Nat → Nat) : Prop where
  blocks : TableBlocks k₀.heap k.heap i table
  words : TableWords k₀.mem k.mem dir flags i table
  fault : k.fault = true ↔ k₀.fault = true ∨ ∃ j < i, table j = 0
  short : k.short = k₀.short
  denied : (∀ j < i, table j ≠ 0) → k.denied = k₀.denied

section

variable {k₀ k : Kmem} {flags i bd : Nat} {table : Nat → Nat}

theorem Building.step (h : Building k₀ k (blockAddr bd) flags i table) (hf : flags < 4096)
    (hi : i < 1024) (hbd : bd < 25600) (hdf : ¬ Free (k₀.heap.table.entries bd)) :
    let (entry, k₁) := kzalloc k 4096
    Building k₀
      { (k₁.follow entry).follow (blockAddr bd) with
        mem := tableMem k₁.mem (blockAddr bd) flags i entry }
      (blockAddr bd) flags (i + 1) (setTable table i entry) := by
  have hdir := inWindow_blockAddr hbd
  -- the tables so far, seen from the directory and from a new table that is none of them
  have htab : ∀ a, (a ≠ 0 → ∀ j < i, table j ≠ a) → ∀ j < i, table j ≠ 0 →
      InWindow (table j) ∧ table j ≠ blockAddr bd ∧ table j ≠ a := fun a hne j hj h0 => by
    obtain ⟨b, hb, he, hfree, -⟩ := h.blocks.block j hj h0
    refine ⟨he ▸ inWindow_blockAddr hb, fun hd => ?_, fun ha => hne (ha ▸ h0) j hj ha⟩
    obtain rfl : b = bd := blockAddr_inj.1 (he.symm.trans hd)
    exact hdf hfree
  have hfault : ∀ a, (∃ j < i + 1, setTable table i a j = 0) ↔ (∃ j < i, table j = 0) ∨ a = 0 := by
    intro a
    constructor
    · rintro ⟨j, hj, h0⟩
      rcases Nat.lt_succ_iff_lt_or_eq.1 hj with hj | rfl
      · exact .inl ⟨j, hj, (setTable_of_lt hj).symm.trans h0⟩
      · exact .inr ((Function.update_self _ _ _).symm.trans h0)
    · rintro (⟨j, hj, h0⟩ | rfl)
      · exact ⟨j, by omega, (setTable_of_lt hj).trans h0⟩
      · exact ⟨i, by omega, Function.update_self _ _ _⟩
  rcases kzalloc_page h.blocks.kernel 4096 (by decide) (by decide) with
    ⟨b, hb, hfree, -, he⟩ | ⟨he, hfull⟩
  · obtain ⟨hne, hfree₀⟩ := h.blocks.of_free hfree
    rw [he]
    dsimp only
    rw [follow_blockAddr hb, follow_blockAddr hbd]
    have := blockAddr_lt hb
    refine ⟨h.blocks.snoc_block hb hfree, h.words.snoc hi hf hdir (.inr (inWindow_blockAddr hb)) ?_
      (htab _ fun _ => hne) fun x hx hxa => fill_apply_of_outside (by omega) hx hxa, ?_, h.short,
      fun hn => h.denied fun j hj => (setTable_of_lt hj).symm.trans_ne (hn j (by omega))⟩
    · intro hd
      obtain rfl : b = bd := blockAddr_inj.1 hd
      exact hdf hfree₀
    · rw [take_fault, h.fault, hfault, or_iff_left (blockAddr_ne_zero b)]
  · rw [he]
    dsimp only
    rw [follow_zero, follow_blockAddr hbd]
    refine ⟨h.blocks.snoc_null hfull, h.words.snoc hi hf hdir (.inl rfl) (blockAddr_ne_zero bd).symm
      (htab _ fun h0 => absurd rfl h0) fun _ _ _ => rfl, ?_, h.short,
      fun hn => absurd (Function.update_self _ _ _) (hn i (Nat.lt_succ_self i))⟩
    rw [hfault]
    simp

theorem building_loop (hf : flags < 4096) (hbd : bd < 25600)
    (hdf : ¬ Free (k₀.heap.table.entries bd)) :
    ∀ (n i offset : Nat) (k : Kmem) (table : Nat → Nat), i + n = 1024 →
      (n ≠ 0 → offset = i * 4194304) → Building k₀ k (blockAddr bd) flags i table →
      ∃ table', Building k₀ (pagingNew4gb.loop (blockAddr bd) flags n i offset k) (blockAddr bd)
        flags 1024 table'
  | 0, i, offset, k, table, hi, _, h => ⟨table, by obtain rfl : i = 1024 := hi; exact h⟩
  | n + 1, i, offset, k, table, hi, ho, h => by
    have hd := blockAddr_lt hbd
    obtain rfl := ho (by omega)
    unfold pagingNew4gb.loop
    have hstep := h.step hf (by omega) hbd hdf
    generalize kzalloc k 4096 = r at hstep ⊢
    obtain ⟨entry, k₁⟩ := r
    dsimp only at hstep ⊢
    simp only [follow_mem, Word.add_of_lt (show blockAddr bd + 4 * i < 2 ^ 32 by omega)]
    refine building_loop hf hbd hdf n (i + 1) _ _ _ (by omega) (fun hn => ?_) hstep
    rw [Word.add_of_lt (by omega)]
    omega

end

/-! ## The whole function -/

section

variable {k : Kmem} {flags : Nat}

/-- After the directory, the loop and the chunk are left. -/
theorem pagingNew4gb_building {k₀ : Kmem} (hk : k₀.heap.Kernel) (hf : flags < 4096) {b : Nat}
    (hb : b < 25600) (hdf : ¬ Free (k₀.heap.table.entries b))
    (he : kzalloc k 4096 = (blockAddr b, k₀)) :
    ∃ k₁ table, Building k₀ k₁ (blockAddr b) flags 1024 table ∧
      pagingNew4gb k flags = ((kzalloc k₁ 4).1,
        { (kzalloc k₁ 4).2.follow (kzalloc k₁ 4).1 with
          mem := write32 (kzalloc k₁ 4).2.mem (kzalloc k₁ 4).1 (blockAddr b) }) := by
  obtain ⟨table, ht⟩ := building_loop hf hb hdf 1024 0 0 k₀ (fun _ => 0) rfl (fun _ => rfl)
    ⟨.init hk _, .init _, by simp, rfl, fun _ => rfl⟩
  refine ⟨_, table, ht, ?_⟩
  unfold pagingNew4gb
  rw [he]
  dsimp only
  rw [follow_mem]

/-- The chunk is a block that was free, or null where the heap is full; its word is all that is
written. -/
theorem writeChunk {k₁ k' : Kmem} {chunk dir : Nat} (hk : k₁.heap.Kernel) (hdir : dir < 2 ^ 32)
    (he : (chunk, k') = ((kzalloc k₁ 4).1,
        { (kzalloc k₁ 4).2.follow (kzalloc k₁ 4).1 with
          mem := write32 (kzalloc k₁ 4).2.mem (kzalloc k₁ 4).1 dir })) :
    read32 k'.mem chunk = dir ∧
    (∀ x < 2 ^ 32, x < chunk ∨ chunk + 4 ≤ x → k'.mem x = k₁.mem x) ∧
    ((∃ b < 25600, Free (k₁.heap.table.entries b) ∧ chunk = blockAddr b ∧
        k'.heap = heapMarkBlocksTaken k₁.heap b 1 ∧ k₁.Quiet k') ∨
      ((∀ b < 25600, ¬ Free (k₁.heap.table.entries b)) ∧ chunk = 0 ∧ k'.heap = k₁.heap ∧
        k'.fault = true)) := by
  obtain ⟨rfl, rfl⟩ := Prod.mk.inj he
  refine ⟨read32_write32 _ _ hdir, ?_⟩
  rcases kzalloc_page hk 4 (by decide) (by decide) with ⟨b, hb, hfree, -, he⟩ | ⟨he, hfull⟩
  · have := blockAddr_lt hb
    rw [he]
    dsimp only
    rw [follow_blockAddr hb]
    refine ⟨fun x hx hxc => ?_, .inl ⟨b, hb, hfree, rfl, rfl, rfl, rfl, rfl⟩⟩
    rw [write32_apply hxc, take_mem, fill_apply_of_outside (by omega) hx hxc]
  · rw [he]
    dsimp only
    rw [follow_zero]
    exact ⟨fun x _ hxc => write32_apply hxc, .inr ⟨hfull, rfl, rfl, rfl⟩⟩

/-- A built directory whose tables are all there, with the word of a chunk that is written apart
from them. -/
theorem Building.pageDir {k₀ k₁ : Kmem} {m : Mem} {b chunk : Nat} {table : Nat → Nat}
    (h : Building k₀ k₁ (blockAddr b) flags 1024 table) (hf : flags < 4096) (hb : b < 25600)
    (hdf : ¬ Free (k₀.heap.table.entries b)) (hnull : ∀ j < 1024, table j ≠ 0)
    (hword : read32 m chunk = blockAddr b)
    (hkeep : ∀ x < 2 ^ 32, x < chunk ∨ chunk + 4 ≤ x → m x = k₁.mem x)
    (hchunk : chunk = 0 ∨ ∃ c < 25600, Free (k₁.heap.table.entries c) ∧ chunk = blockAddr c) :
    PageDir m (blockAddr b) (flags ||| pagingIsWriteable) table ∧
      ChunkOf m chunk (blockAddr b) table ∧
      ∀ p < 2 ^ 20, pageEntry m table p = 4096 * p ||| flags := by
  have hd := inWindow_blockAddr hb
  have hdlo := hd.lo
  have hdhi := hd.hi
  have hw : ∀ j < 1024, InWindow (table j) ∧ table j ≠ blockAddr b := fun j hj => by
    obtain ⟨b', hb', he, hfree, -⟩ := h.blocks.block j hj (hnull j hj)
    refine ⟨he ▸ inWindow_blockAddr hb', fun hd => ?_⟩
    obtain rfl : b' = b := blockAddr_inj.1 (he.symm.trans hd)
    exact hdf hfree
  -- the chunk is apart from every page that is not free
  have hapart : ∀ t, InWindow t → (∀ c, Free (k₁.heap.table.entries c) → t ≠ blockAddr c) →
      chunk + 4 ≤ t ∨ t + 4096 ≤ chunk := fun t ht hne => by
    have := ht.lo
    rcases hchunk with rfl | ⟨c, hc, hfree, rfl⟩
    · omega
    · have := ht.disjoint (inWindow_blockAddr hc) (hne c hfree)
      omega
  have hcd := hapart _ hd fun c hfree he => by
    obtain rfl : b = c := blockAddr_inj.1 he
    exact hdf (h.blocks.of_free hfree).2
  have hct : ∀ j < 1024, chunk + 4 ≤ table j ∨ table j + 4096 ≤ chunk := fun j hj =>
    hapart _ (hw j hj).1 fun c hfree => (h.blocks.of_free hfree).1 j hj
  refine ⟨⟨or_writeable_lt hf, hd, fun i hi => (hw i hi).1, fun i hi j hj he =>
    h.blocks.inj i hi j hj he (hnull i hi), fun i hi => (hw i hi).2, fun i hi => ?_⟩, ⟨hword, hct⟩,
    fun p hp => ?_⟩
  · rw [← h.words.entry i hi]
    exact read32_congr fun c hc => hkeep _ (by omega) (by omega)
  · have := (hw (p / 1024) (by omega)).1.hi
    have := hct (p / 1024) (by omega)
    have hpage := h.words.page (p / 1024) (by omega) (hnull _ (by omega)) (p % 1024) (by omega)
    rw [show 1024 * (p / 1024) + p % 1024 = p by omega] at hpage
    rw [← hpage]
    exact read32_congr fun c hc => hkeep _ (by unfold entryAddr; omega) (by unfold entryAddr; omega)

end

end Pandora
