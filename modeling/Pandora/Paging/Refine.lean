import Pandora.Lib.Run
import Pandora.Paging.New

/-!
# Page tables refine an abstract map

The abstract map gives each of the `2 ^ 20` pages a 32-bit entry. `PagingOp.Refines` says what a
call may do to it: an accepted call changes it at the pages the call names, the `i`-th of them
counted modulo `2 ^ 20`, and a rejected one leaves it. `Reads` says that the code's two readers see
the map. Every call on a directory (`PageDir`) does as `PagingOp.Refines` says (`run_spec`), and the
directory `paging_new_4gb` builds starts as the identity map, so the map is kept over every run
(`paging_refines_map`).
-/

namespace Pandora

open ByteMem

/-! ## Calls -/

inductive PagingOp where
  | set (virt val : Nat)
  | map (virt phys flags : Nat)
  | mapRange (virt phys : Nat) (count : Int) (flags : Nat)
  | mapTo (virt phys physEnd flags : Nat)
deriving DecidableEq, Repr

namespace PagingOp

/-- The call on the directory of `chunk`: its result and the memory after it. -/
def run (chunk : Nat) (m : Mem) : PagingOp → Int × Mem
  | set virt val => pagingSet m (paging4gbChunkGetDirectory m chunk) virt val
  | map virt phys flags => pagingMap m chunk virt phys flags
  | mapRange virt phys count flags => pagingMapRange m chunk virt phys count flags
  | mapTo virt phys physEnd flags => pagingMapTo m chunk virt phys physEnd flags

def step (chunk : Nat) (m : Mem) (op : PagingOp) : Mem := (op.run chunk m).2

/-- Addresses and values are 32-bit patterns, flags are below 4096. -/
def Valid : PagingOp → Prop
  | set virt val => virt < 2 ^ 32 ∧ val < 2 ^ 32
  | map virt phys flags => virt < 2 ^ 32 ∧ phys < 2 ^ 32 ∧ flags < 4096
  | mapRange virt phys _ flags => virt < 2 ^ 32 ∧ phys < 2 ^ 32 ∧ flags < 4096
  | mapTo virt phys physEnd flags =>
    virt < 2 ^ 32 ∧ phys < 2 ^ 32 ∧ physEnd < 2 ^ 32 ∧ flags < 4096

/-! ## What a call means -/

/-- The addresses are page-aligned, and the range is one. -/
def Accepted : PagingOp → Prop
  | set virt _ => virt % 4096 = 0
  | map virt phys _ => virt % 4096 = 0 ∧ phys % 4096 = 0
  | mapRange virt phys count _ => count ≤ 0 ∨ virt % 4096 = 0 ∧ phys % 4096 = 0
  | mapTo virt phys physEnd _ =>
    virt % 4096 = 0 ∧ phys % 4096 = 0 ∧ physEnd % 4096 = 0 ∧ phys ≤ physEnd

/-- How many pages the call names. -/
def count : PagingOp → Nat
  | set _ _ => 1
  | map _ _ _ => 1
  | mapRange _ _ count _ => count.toNat
  | mapTo _ phys physEnd _ => (physEnd - phys) / 4096

def virt : PagingOp → Nat
  | set virt _ => virt
  | map virt _ _ => virt
  | mapRange virt _ _ _ => virt
  | mapTo virt _ _ _ => virt

/-- The `i`-th page the call names. -/
def page (op : PagingOp) (i : Nat) : Nat := (op.virt / 4096 + i) % 2 ^ 20

/-- What the `i`-th page becomes. -/
def entry (i : Nat) : PagingOp → Nat
  | set _ val => val
  | map _ phys flags => (phys + 4096 * i) % 2 ^ 32 ||| flags
  | mapRange _ phys _ flags => (phys + 4096 * i) % 2 ^ 32 ||| flags
  | mapTo _ phys _ flags => (phys + 4096 * i) % 2 ^ 32 ||| flags

/-- `M'` is `M` changed at exactly the pages the call names. -/
structure Changes (op : PagingOp) (M M' : Nat → Nat) : Prop where
  named : ∀ i < op.count, M' (op.page i) = op.entry i
  others : ∀ p < 2 ^ 20, (∀ i < op.count, op.page i ≠ p) → M' p = M p

/-- A call that returned `res` took the abstract map from `M` to `M'`. -/
def Refines (op : PagingOp) (res : Int) (M M' : Nat → Nat) : Prop :=
  op.Accepted ∧ res = allOk ∧ op.Changes M M' ∨ ¬ op.Accepted ∧ res < 0 ∧ M' = M

end PagingOp

/-- The readers of the directory of `chunk` see the map `M`. -/
structure Reads (m : Mem) (chunk : Nat) (M : Nat → Nat) : Prop where
  lt : ∀ p < 2 ^ 20, M p < 2 ^ 32
  get : ∀ v < 2 ^ 32, pagingGet m (paging4gbChunkGetDirectory m chunk) (pagingAlignToLowerPage v) =
    M (v / 4096)
  physical : ∀ v < 2 ^ 32, pagingGetPhyiscalAddress m (paging4gbChunkGetDirectory m chunk) v =
    M (v / 4096) / 4096 * 4096 + v % 4096

/-- The directory of `chunk` and its tables, as `paging_set` finds them, are pages of the kernel
heap. -/
structure InHeapWindow (m : Mem) (chunk : Nat) : Prop where
  directory : InWindow (read32 m chunk)
  table : ∀ i < 1024, InWindow (read32 m (read32 m chunk + 4 * i) &&& 0xFFFFF000)

section

variable {m m' : Mem} {chunk dir f : Nat} {table M M' : Nat → Nat}

/-! ## The readers -/

theorem PageDir.reads (h : PageDir m dir f table) (hc : ChunkOf m chunk dir table) :
    Reads m chunk (pageEntry m table) := by
  have hget : ∀ v < 2 ^ 32, pagingGet m dir (pagingAlignToLowerPage v) =
      pageEntry m table (v / 4096) := fun v hv => by
    have hal : pagingAlignToLowerPage v = v / 4096 * 4096 := by
      unfold pagingAlignToLowerPage
      omega
    rw [hal, h.get (by omega) (by omega), Nat.mul_div_cancel _ (by decide)]
  refine ⟨fun p _ => pageEntry_lt m table p, fun v hv => ?_, fun v hv => ?_⟩
  · unfold paging4gbChunkGetDirectory
    rw [hc.directory, hget v hv]
  · have hlt := pageEntry_lt m table (v / 4096)
    have hdiff : Word.sub v (pagingAlignToLowerPage v) = v % 4096 := by
      unfold pagingAlignToLowerPage
      rw [Word.sub_of_le (by omega) hv]
      omega
    unfold paging4gbChunkGetDirectory pagingGetPhyiscalAddress
    dsimp only
    rw [hc.directory, hget v hv, hdiff, Word.and_page_mask hlt, Word.add_of_lt (by omega)]

/-! ## The calls -/

/-- One page. -/
theorem changes_one {op : PagingOp} {v val : Nat} (hv : v < 2 ^ 20) (hcount : op.count = 1)
    (hpage : op.virt / 4096 = v) (hentry : op.entry 0 = val)
    (hM : ∀ p < 2 ^ 20, M' p = if p = v then val else M p) : op.Changes M M' where
  named := fun i hi => by
    obtain rfl : i = 0 := by omega
    have hp : op.page 0 = v := by
      unfold PagingOp.page
      omega
    rw [hp, hM v hv, if_pos rfl, hentry]
  others := fun p hp hne => by
    have := hne 0 (by omega)
    unfold PagingOp.page at this
    rw [hM p hp, if_neg (by omega)]

theorem PagingOp.Changes.congr {op : PagingOp} {M'' : Nat → Nat} (h : op.Changes M M')
    (hM : ∀ p < 2 ^ 20, M'' p = M' p) : op.Changes M M'' where
  named := fun i hi => (hM _ (Nat.mod_lt _ (by decide))).trans (h.named i hi)
  others := fun p hp hne => (hM p hp).trans (h.others p hp hne)

/-- A range. -/
theorem changes_range {op : PagingOp} {v phys flags n : Nat} (hv : v < 2 ^ 20)
    (hcount : op.count = n) (hpage : op.virt / 4096 = v)
    (hentry : ∀ i, op.entry i = (phys + 4096 * i) % 2 ^ 32 ||| flags)
    (hM : ∀ p < 2 ^ 20, M' p = mapped M v phys n flags p) : op.Changes M M' where
  named := fun i hi => by
    have hp : op.page i = (v + i) % 2 ^ 20 := by rw [PagingOp.page, hpage]
    have hidx : pageIndex v (op.page i) = i % 2 ^ 20 := by
      unfold pageIndex
      omega
    rw [hM _ (by omega), mapped, hidx, if_pos (by omega), hentry, Word.add_eq]
    congr 1
    omega
  others := fun p hp hne => by
    rw [hM p hp, mapped, if_neg fun hlt => hne (pageIndex v p) (by omega) ?_]
    unfold PagingOp.page pageIndex
    omega

/-- Every call is accepted and changes what it names, or is rejected and changes nothing. -/
theorem run_spec (h : PageDir m dir f table) (hc : ChunkOf m chunk dir table) {op : PagingOp}
    (hv : op.Valid) :
    (op.Accepted ∧ ∃ m' M', op.run chunk m = (allOk, m') ∧ Mapped m m' dir f table M' ∧
      op.Changes (pageEntry m table) M') ∨
    (¬ op.Accepted ∧ op.run chunk m = (-einvarg, m)) := by
  cases op with
  | set virt val =>
    obtain ⟨hv, hval⟩ := hv
    have hvp : virt / 4096 < 2 ^ 20 := by omega
    dsimp only [PagingOp.run, paging4gbChunkGetDirectory]
    rw [hc.directory]
    by_cases hal : virt % 4096 = 0
    · obtain ⟨m', he, hm⟩ := pagingSet_mapped h hv hal hval
      exact .inl ⟨hal, m', _, he, hm, changes_one hvp rfl rfl rfl fun _ _ => rfl⟩
    · exact .inr ⟨hal, pagingSet_rejected hal⟩
  | map virt phys flags =>
    obtain ⟨hv, hp, hf⟩ := hv
    have hvp : virt / 4096 < 2 ^ 20 := by omega
    by_cases hal : virt % 4096 = 0 ∧ phys % 4096 = 0
    · obtain ⟨m', he, hm⟩ := pagingMap_mapped h hc hv hal.1 hp hal.2 hf
      refine .inl ⟨hal, m', _, he, hm, changes_one hvp rfl rfl ?_ fun _ _ => rfl⟩
      rw [PagingOp.entry, Nat.mul_zero, Nat.add_zero, Nat.mod_eq_of_lt hp]
    · exact .inr ⟨hal, pagingMap_rejected (by omega)⟩
  | mapRange virt phys count flags =>
    obtain ⟨hv, hp, hf⟩ := hv
    have hvp : virt / 4096 < 2 ^ 20 := by omega
    by_cases hal : virt % 4096 = 0 ∧ phys % 4096 = 0
    · obtain ⟨m', he, hm⟩ := pagingMapRange_mapped h hc hv hal.1 hp hal.2 hf count
      exact .inl ⟨.inr hal, m', _, he, hm,
        changes_range hvp rfl rfl (fun _ => rfl) fun _ _ => rfl⟩
    · have he : pagingMapRange m chunk virt phys count flags = _ := pagingMapRange_none
        (.inr (show virt % 4096 ≠ 0 ∨ phys % 4096 ≠ 0 by omega))
      by_cases hcount : count ≤ 0
      · rw [if_pos hcount] at he
        have hzero : count.toNat = 0 := by omega
        refine .inl ⟨.inl hcount, m, _, he, .refl h, fun i hi => ?_, fun _ _ _ => rfl⟩
        exact absurd (hzero ▸ hi) (Nat.not_lt_zero i)
      · rw [if_neg hcount] at he
        exact .inr ⟨fun ha => ha.elim hcount hal, he⟩
  | mapTo virt phys physEnd flags =>
    obtain ⟨hv, hp, he, hf⟩ := hv
    have hvp : virt / 4096 < 2 ^ 20 := by omega
    by_cases hal : virt % 4096 = 0 ∧ phys % 4096 = 0 ∧ physEnd % 4096 = 0 ∧ phys ≤ physEnd
    · obtain ⟨h1, h2, h3, h4⟩ := hal
      obtain ⟨m', he', hm⟩ := pagingMapRange_mapped h hc hv h1 hp h2 hf ((physEnd - phys) / 4096 : Nat)
      rw [← pagingMapTo_eq h1 h2 h3 h4 he] at he'
      exact .inl ⟨⟨h1, h2, h3, h4⟩, m', _, he', hm, changes_range hvp
        (Int.toNat_natCast _).symm rfl (fun _ => rfl) fun _ _ => rfl⟩
    · exact .inr ⟨hal, pagingMapTo_rejected hal⟩

/-- A directory that `paging_new_4gb` built in the heap window is the identity map. -/
theorem pagingNew4gb_pageDir {k k' : Kmem} {flags : Nat} (hk : k.heap.Kernel) (hf : flags < 4096)
    (hnew : pagingNew4gb k flags = (chunk, k')) (hw : InHeapWindow k'.mem chunk) :
    ∃ dir table, PageDir k'.mem dir (flags ||| pagingIsWriteable) table ∧
      ChunkOf k'.mem chunk dir table ∧
      ∀ p < 2 ^ 20, pageEntry k'.mem table p = 4096 * p ||| flags := by
  rcases kzalloc_page hk 4096 (by decide) (by decide) with ⟨b, hb, -, -, he⟩ | ⟨he, -⟩
  · have hdf : ¬ Free ((heapMarkBlocksTaken k.heap b 1).table.entries b) := by
      rw [markBlocksTaken_one _ hb, if_pos rfl]
      exact chainEntry_not_free 1 0
    obtain ⟨k₁, table, ht, hnew'⟩ := pagingNew4gb_building (hk.markBlocksTaken b 1) hf hb hdf he
    have hd := blockAddr_lt hb
    obtain ⟨hword, hkeep, hcases⟩ := writeChunk ht.blocks.kernel (by omega) (hnew.symm.trans hnew')
    have hchunk : chunk = 0 ∨ ∃ c < 25600, Free (k₁.heap.table.entries c) ∧ chunk = blockAddr c := by
      rcases hcases with ⟨c, hc, hfree, he, -⟩ | ⟨-, he, -⟩
      · exact .inr ⟨c, hc, hfree, he⟩
      · exact .inl he
    refine ⟨_, table, ht.pageDir hf hb hdf (fun j hj h0 => ?_) hword hkeep hchunk⟩
    -- a null table would be found at address 0
    have hapart : chunk + 4 ≤ blockAddr b ∨ blockAddr b + 4096 ≤ chunk := by
      have hlo := (inWindow_blockAddr hb).lo
      rcases hchunk with rfl | ⟨c, hc, hfree, rfl⟩
      · omega
      · have := (inWindow_blockAddr hc).disjoint (inWindow_blockAddr hb) fun hcb => by
          obtain rfl : c = b := blockAddr_inj.1 hcb
          exact hdf (ht.blocks.of_free hfree).2
        omega
    have hentry : read32 k'.mem (blockAddr b + 4 * j) = 0 + (flags ||| pagingIsWriteable) := by
      rw [← h0, ← ht.words.entry j hj]
      exact read32_congr fun c hc => hkeep _ (by omega) (by omega)
    have hflags := or_writeable_lt hf
    have hwin := hw.table j hj
    rw [hword, hentry, Word.and_page_mask (by omega), Nat.zero_add, Nat.div_eq_of_lt hflags,
      Nat.zero_mul] at hwin
    exact not_inWindow_zero hwin
  · -- a null directory would be found at address 0
    refine absurd hw.directory ?_
    unfold pagingNew4gb at hnew
    rw [he] at hnew
    dsimp only at hnew
    obtain ⟨rfl, rfl⟩ := Prod.mk.inj hnew
    dsimp only
    rw [read32_write32 _ _ (by decide)]
    exact not_inWindow_zero

theorem NewPaging.inHeapWindow {k k' : Kmem} {flags : Nat}
    (h : NewPaging k k' flags chunk dir table) : InHeapWindow k'.mem chunk where
  directory := h.chunkOf.directory ▸ h.pageDir.dirWindow
  table := fun i hi => by
    have hlt := h.pageDir.flags_lt
    have hw := h.pageDir.window i hi
    have := hw.hi
    have := hw.aligned
    rw [h.chunkOf.directory, h.pageDir.entry i hi, Word.and_page_mask (by omega),
      show (table i + (flags ||| pagingIsWriteable)) / 4096 * 4096 = table i by omega]
    exact hw

/-! ## Runs -/

/-- **Page tables refine an abstract map.** For every directory that `paging_new_4gb(flags)` built
with its tables in the kernel heap window there is an abstract map, the identity map with `flags` at
first, that every run of calls changes as it should and that the readers see after every run. -/
theorem paging_refines_map {k k' : Kmem} {flags : Nat} (hk : k.heap.Kernel) (hf : flags < 256)
    (hnew : pagingNew4gb k flags = (chunk, k')) (hw : InHeapWindow k'.mem chunk) :
    ∃ M : List PagingOp → Nat → Nat, (∀ p < 2 ^ 20, M [] p = 4096 * p ||| flags) ∧
      ∀ ops : List PagingOp, (∀ op ∈ ops, op.Valid) →
        Reads (Run.exec (PagingOp.step chunk) k'.mem ops) chunk (M ops) ∧
        ∀ op : PagingOp, op.Valid →
          op.Refines (op.run chunk (Run.exec (PagingOp.step chunk) k'.mem ops)).1 (M ops)
            (M (ops ++ [op])) := by
  obtain ⟨dir, table, hd, hc, hinit⟩ := pagingNew4gb_pageDir hk (by omega) hnew hw
  -- the directory stays one over every run
  have hinv : ∀ ops : List PagingOp, (∀ op ∈ ops, op.Valid) →
      PageDir (Run.exec (PagingOp.step chunk) k'.mem ops) dir (flags ||| pagingIsWriteable) table ∧
        ChunkOf (Run.exec (PagingOp.step chunk) k'.mem ops) chunk dir table := fun ops hv => by
    refine Run.Steps.inv (P := fun _ (op : PagingOp) => op.Valid)
      (I := fun m => PageDir m dir (flags ||| pagingIsWriteable) table ∧ ChunkOf m chunk dir table)
      (fun m op hi hv => ?_) ⟨hd, hc⟩ (Run.steps_of_forall hv)
    unfold PagingOp.step
    rcases run_spec hi.1 hi.2 hv with ⟨-, m', M', he, hm, -⟩ | ⟨-, he⟩
    · rw [he]
      exact ⟨hm.pageDir, hi.2.mapped hm⟩
    · rw [he]
      exact hi
  refine ⟨fun ops => pageEntry (Run.exec (PagingOp.step chunk) k'.mem ops) table, hinit,
    fun ops hv => ⟨(hinv ops hv).1.reads (hinv ops hv).2, fun op hop => ?_⟩⟩
  dsimp only
  rw [Run.exec_append, Run.exec_cons, Run.exec_nil, PagingOp.step]
  rcases run_spec (hinv ops hv).1 (hinv ops hv).2 hop with ⟨ha, m', M', he, hm, hch⟩ | ⟨ha, he⟩
  · rw [he]
    refine .inl ⟨ha, rfl, hch.congr hm.entries⟩
  · rw [he]
    exact .inr ⟨ha, show -einvarg < 0 by decide, rfl⟩

end

theorem bootKmem_freeBlocks : (freeBlocks bootKmem.heap).card = 25600 := by
  have h : freeBlocks bootKmem.heap = Finset.range 25600 := by
    ext b
    rw [mem_freeBlocks, Finset.mem_range]
    exact and_iff_left free_entryFree
  rw [h, Finset.card_range]

theorem paging_refines_map_boot :
    ∃ M : List PagingOp → Nat → Nat, (∀ p < 2 ^ 20, M [] p = 4096 * p ||| 5) ∧
      ∀ ops : List PagingOp, (∀ op ∈ ops, op.Valid) →
        Reads (Run.exec (PagingOp.step (pagingNew4gb bootKmem 5).1) (pagingNew4gb bootKmem 5).2.mem
          ops) (pagingNew4gb bootKmem 5).1 (M ops) ∧
        ∀ op : PagingOp, op.Valid →
          op.Refines (op.run (pagingNew4gb bootKmem 5).1
            (Run.exec (PagingOp.step (pagingNew4gb bootKmem 5).1) (pagingNew4gb bootKmem 5).2.mem
              ops)).1 (M ops) (M (ops ++ [op])) := by
  have hcard : 1026 ≤ (freeBlocks bootKmem.heap).card := by
    rw [bootKmem_freeBlocks]
    decide
  obtain ⟨dir, table, h⟩ := exists_newPaging bootKmem_kernel (show 5 < 4096 by decide) hcard
  exact paging_refines_map bootKmem_kernel (by decide) Prod.mk.eta.symm h.inHeapWindow

end Pandora
