import Pandora.Paging.Refine
import Pandora.Process.Defs

/-!
# Mapping the segments of an ELF image (`process_map_elf`)

The image stays where it was read, at `elf_memory`, and every program header maps the pages that hold
its part of the image. `Kernel.mapTo_spec` is one call of `paging_map_to` on the directory of a
process, `Elf32Phdr.entry` the entry a header gives to a page it covers. The headers are read again
in each round: they do not change, as no byte of them lies in a page table (`HeadersApart`).
-/

namespace Pandora

open ByteMem

/-! ## Images -/

/-- The program header `i` of the image at `header`. -/
def programHeader (m : Mem) (header i : Nat) : Elf32Phdr :=
  elf32Phdr m (elfProgramHeader m header i)

/-- The pages from `p_vaddr` rounded down to the end of the segment rounded up. -/
def Elf32Phdr.Covers (phdr : Elf32Phdr) (page : Nat) : Prop :=
  phdr.pVaddr / 4096 ≤ page ∧ page < (phdr.pVaddr + phdr.pMemsz + 4095) / 4096

instance (phdr : Elf32Phdr) (page : Nat) : Decidable (phdr.Covers page) :=
  inferInstanceAs (Decidable (_ ∧ _))

/-- The flags of the pages of a segment. -/
def Elf32Phdr.flags (phdr : Elf32Phdr) : Nat :=
  if phdr.pFlags &&& pfW ≠ 0 then pagingIsPresent ||| pagingAccessFromAll ||| pagingIsWriteable
  else pagingIsPresent ||| pagingAccessFromAll

/-- The entry of a page of the segment, in an image at `header`. -/
def Elf32Phdr.entry (phdr : Elf32Phdr) (header page : Nat) : Nat :=
  ((header + phdr.pOffset) / 4096 * 4096 + 4096 * (page - phdr.pVaddr / 4096)) ||| phdr.flags

/-- The segment lies in the file as it does in memory, and ends below the last page of both. -/
structure Elf32Phdr.Fits (phdr : Elf32Phdr) (header : Nat) : Prop where
  congruent : phdr.pVaddr % 4096 = phdr.pOffset % 4096
  virtEnd : phdr.pVaddr + phdr.pMemsz ≤ 2 ^ 32 - 4096
  physEnd : header + phdr.pOffset + phdr.pMemsz ≤ 2 ^ 32 - 4096

/-- A page-aligned image whose segments fit and cover no page twice. -/
structure Mappable (m : Mem) (header : Nat) : Prop where
  accepted : elfValidateLoaded m header = allOk
  aligned : header % 4096 = 0
  fits : ∀ i < ePhnum m header, (programHeader m header i).Fits header
  disjoint : ∀ i < ePhnum m header, ∀ j < ePhnum m header, i ≠ j → ∀ page,
    ¬ ((programHeader m header i).Covers page ∧ (programHeader m header j).Covers page)

/-- The address lies in none of the tables. -/
def OutsideTables (table : Nat → Nat) (x : Nat) : Prop :=
  ∀ i < 1024, x < table i ∨ table i + 4096 ≤ x

/-- No byte of the header or of a program header lies in a table. -/
structure HeadersApart (m : Mem) (header : Nat) (table : Nat → Nat) : Prop where
  start : ∀ k < 52, OutsideTables table (Word.add header k)
  phdrs : ∀ i < ePhnum m header, ∀ k < 32,
    OutsideTables table (Word.add (elfProgramHeader m header i) k)

section

variable {σ : Type} {K K' K'' : Kernel σ} {m m' : Mem} {process dir f header a x : Nat}
  {table M : Nat → Nat}

/-- The directory of a process. -/
structure ProcessDir (K : Kernel σ) (process dir f : Nat) (table : Nat → Nat) : Prop where
  pageDir : PageDir K.mem dir f table
  chunk : ChunkOf K.mem (K.queue.task (K.processAt process).task).pageDirectory dir table

/-- Only bytes and ghosts have changed. -/
structure Kernel.MemOnly (K K' : Kernel σ) : Prop where
  eq : K' = { K with kmem := K'.kmem }
  heap : K'.kmem.heap = K.kmem.heap

namespace Kernel.MemOnly

theorem refl (K : Kernel σ) : K.MemOnly K := ⟨rfl, rfl⟩

theorem trans (h : K.MemOnly K') (h' : K'.MemOnly K'') : K.MemOnly K'' where
  eq := by rw [h'.eq, h.eq]
  heap := h'.heap.trans h.heap

theorem processAt (h : K.MemOnly K') : K'.processAt = K.processAt := by rw [h.eq]

theorem elfFileAt (h : K.MemOnly K') : K'.elfFileAt = K.elfFileAt := by rw [h.eq]

theorem queue (h : K.MemOnly K') : K'.queue = K.queue := by rw [h.eq]

end Kernel.MemOnly

theorem ProcessDir.mapped (h : ProcessDir K process dir f table) (hk : K.MemOnly K')
    (hm : Mapped K.mem K'.mem dir f table M) : ProcessDir K' process dir f table where
  pageDir := hm.pageDir
  chunk := by
    rw [hk.queue, hk.processAt]
    exact h.chunk.mapped hm

/-- One call of `paging_map_to` with aligned addresses. -/
theorem Kernel.mapTo_spec (h : ProcessDir K process dir f table) {virt phys physEnd flags : Nat}
    (hv : virt % 4096 = 0) (hp : phys % 4096 = 0) (he : physEnd % 4096 = 0) (hle : phys ≤ physEnd)
    (hvlt : virt < 2 ^ 32) (helt : physEnd < 2 ^ 32) (hf : flags < 4096) :
    ∃ K', K.mapTo process virt phys physEnd flags = (allOk, K') ∧ K.MemOnly K' ∧
      Mapped K.mem K'.mem dir f table
        (mapped (pageEntry K.mem table) (virt / 4096) phys ((physEnd - phys) / 4096) flags) := by
  obtain ⟨m', hr, hm⟩ := pagingMapRange_mapped h.pageDir h.chunk hvlt hv (by omega) hp hf
    ((physEnd - phys) / 4096 : Nat)
  have hmem : ∀ p q, ((K.follow p).follow q).mem = K.mem := fun p q => by
    unfold Kernel.follow Kernel.mem
    rw [follow_mem, follow_mem]
  have hheap : ∀ p q, ((K.follow p).follow q).kmem.heap = K.kmem.heap := fun p q => by
    unfold Kernel.follow
    rw [follow_heap, follow_heap]
  obtain ⟨task, htask⟩ : ∃ task, (K.processAt process).task = task := ⟨_, rfl⟩
  obtain ⟨pd, hpd⟩ : ∃ pd, (K.queue.task task).pageDirectory = pd := ⟨_, rfl⟩
  refine ⟨{ K with kmem := { ((K.follow task).follow pd).kmem with mem := m' } }, ?_, ⟨rfl, ?_⟩, hm⟩
  · unfold Kernel.mapTo
    dsimp only
    rw [htask]
    have hpd' : ((K.follow task).queue.task task).pageDirectory = pd := hpd
    rw [htask, hpd] at hr
    rw [hpd', hmem, pagingMapTo_eq hv hp he hle helt, hr]
    rfl
  · exact hheap task pd

/-! ## Where the directory is -/

theorem Kernel.follow_blockAddr {b : Nat} (hb : b < 25600) (K : Kernel σ) :
    K.follow (blockAddr b) = K := by
  unfold Kernel.follow
  rw [Pandora.follow_blockAddr hb]

/-- The task and the directory of the process are where the heap is. -/
structure Placed (K : Kernel σ) (process t c : Nat) : Prop where
  task : (K.processAt process).task = blockAddr t
  task_lt : t < 25600
  chunk : (K.queue.task (blockAddr t)).pageDirectory = blockAddr c
  chunk_lt : c < 25600

theorem Placed.mapTo {t c : Nat} (h : Placed K process t c) (virt phys physEnd flags : Nat) :
    ∃ m, (K.mapTo process virt phys physEnd flags).2 = K.withMem m := by
  unfold Kernel.mapTo
  dsimp only
  rw [h.task, Kernel.follow_blockAddr h.task_lt, h.chunk, Kernel.follow_blockAddr h.chunk_lt]
  exact ⟨_, rfl⟩

theorem Placed.withMem {t c : Nat} (h : Placed K process t c) (m : Mem) :
    Placed (K.withMem m) process t c :=
  ⟨h.task, h.task_lt, h.chunk, h.chunk_lt⟩

/-! ## The headers while pages are mapped -/

/-- Addresses past the end of the address space are in no table either. -/
theorem outside_add (h : PageDir m dir f table) {k n : Nat}
    (ha : ∀ k < n, OutsideTables table (Word.add a k)) {j : Nat} (hk : k + j < n) :
    OutsideTables table (Word.add a k + j) := by
  intro i hi
  have hwin := (h.window i hi).hi
  have := ha (k + j) hk i hi
  rw [Word.add_eq] at this ⊢
  omega

theorem read32_outside (h : PageDir m dir f table) {k n : Nat}
    (ha : ∀ k < n, OutsideTables table (Word.add a k)) (hk : k + 4 ≤ n)
    (hm : ∀ x, OutsideTables table x → m' x = m x) :
    read32 m' (Word.add a k) = read32 m (Word.add a k) :=
  read32_congr fun _ hj => hm _ (outside_add h ha (by omega))

theorem read16_outside (h : PageDir m dir f table) {k n : Nat}
    (ha : ∀ k < n, OutsideTables table (Word.add a k)) (hk : k + 2 ≤ n)
    (hm : ∀ x, OutsideTables table x → m' x = m x) :
    read16 m' (Word.add a k) = read16 m (Word.add a k) := by
  unfold read16
  have h0 := hm _ (outside_add h ha (show k + 0 < n by omega))
  have h1 := hm _ (outside_add h ha (show k + 1 < n by omega))
  rw [Nat.add_zero] at h0
  rw [h0, h1]

/-- The headers are the same in every memory that agrees outside the tables. -/
theorem HeadersApart.same (ha : HeadersApart m header table) (h : PageDir m dir f table)
    (hm : ∀ x, OutsideTables table x → m' x = m x) :
    ePhnum m' header = ePhnum m header ∧ elfPheader m' header = elfPheader m header ∧
      ∀ i < ePhnum m header, elf32Phdr m' (elfProgramHeader m header i) =
        programHeader m header i := by
  have hphoff : ePhoff m' header = ePhoff m header := read32_outside h ha.start (by decide) hm
  have hphdr : elfPheader m' header = elfPheader m header := by
    unfold elfPheader
    rw [hphoff]
  refine ⟨read16_outside h ha.start (by decide) hm, hphdr, fun i hi => ?_⟩
  have hword : ∀ k, k + 4 ≤ 32 → read32 m' (Word.add (elfProgramHeader m header i) k) =
      read32 m (Word.add (elfProgramHeader m header i) k) := fun k hk =>
    read32_outside h (ha.phdrs i hi) hk hm
  have hfirst := hword 0 (by decide)
  have hlt : elfProgramHeader m header i < 2 ^ 32 := Word.add_lt _ _
  rw [Word.add_of_lt (show elfProgramHeader m header i + 0 < 2 ^ 32 from hlt), Nat.add_zero] at hfirst
  unfold programHeader elf32Phdr
  rw [hfirst, hword 4 (by decide), hword 8 (by decide), hword 16 (by decide), hword 20 (by decide),
    hword 24 (by decide)]

/-! ## One segment -/

theorem Elf32Phdr.flags_lt (phdr : Elf32Phdr) : phdr.flags < 4096 := by
  unfold Elf32Phdr.flags
  split <;> decide

theorem pagingAlignToLowerPage_eq (a : Nat) : pagingAlignToLowerPage a = a / 4096 * 4096 := by
  unfold pagingAlignToLowerPage
  omega

theorem pagingAlignAddress_eq {a : Nat} (h : a ≤ 2 ^ 32 - 4096) :
    pagingAlignAddress a = (a + 4095) / 4096 * 4096 := by
  unfold pagingAlignAddress
  split
  · rw [Word.add_of_lt (by omega), Word.sub_of_le (by omega) (by omega)]
    omega
  · omega

/-- What a segment makes of the map of its directory. -/
def Elf32Phdr.map (phdr : Elf32Phdr) (header : Nat) (M : Nat → Nat) : Nat → Nat := fun page =>
  if phdr.Covers page then phdr.entry header page else M page

theorem processMapElf_segment {phdr : Elf32Phdr} (h : ProcessDir K process dir f table)
    (hheader : (K.elfFileAt (K.processAt process).ptr).elfMemory = header)
    (hal : header % 4096 = 0) (hfit : phdr.Fits header) :
    ∃ K', processMapElf.segment K process phdr = (allOk, K') ∧ K.MemOnly K' ∧
      Mapped K.mem K'.mem dir f table (phdr.map header (pageEntry K.mem table)) := by
  obtain ⟨hcong, hvirt, hphys⟩ := hfit
  have hplace : elfPhdrPhysAddress (K.elfFileAt (K.processAt process).ptr) phdr =
      header + phdr.pOffset := by
    unfold elfPhdrPhysAddress
    rw [hheader, Word.add_of_lt (by omega)]
  have hend : pagingAlignAddress (Word.add (header + phdr.pOffset) phdr.pMemsz) =
      (header + phdr.pOffset + phdr.pMemsz + 4095) / 4096 * 4096 := by
    rw [Word.add_of_lt (by omega), pagingAlignAddress_eq hphys]
  have hv : phdr.pVaddr / 4096 * 4096 % 4096 = 0 := Nat.mul_mod_left _ _
  have hp : (header + phdr.pOffset) / 4096 * 4096 % 4096 = 0 := Nat.mul_mod_left _ _
  have he : (header + phdr.pOffset + phdr.pMemsz + 4095) / 4096 * 4096 % 4096 = 0 :=
    Nat.mul_mod_left _ _
  obtain ⟨K', hr, hk, hm⟩ := Kernel.mapTo_spec h hv hp he (by omega) (by omega) (by omega)
    phdr.flags_lt
  refine ⟨K', ?_, hk, hm.congr fun page hpage => ?_⟩
  · unfold processMapElf.segment
    dsimp only
    rw [hplace, hend, pagingAlignToLowerPage_eq, pagingAlignToLowerPage_eq]
    exact hr
  · unfold mapped Elf32Phdr.map Elf32Phdr.entry
    rw [Nat.mul_div_cancel _ (by decide : 0 < 4096)]
    by_cases hc : phdr.Covers page
    · have hc' := hc
      unfold Elf32Phdr.Covers at hc'
      have hidx : pageIndex (phdr.pVaddr / 4096) page = page - phdr.pVaddr / 4096 := by
        unfold pageIndex
        omega
      rw [if_pos hc, hidx, if_pos (by omega), Word.add_of_lt (by omega)]
    · have hc' := hc
      unfold Elf32Phdr.Covers at hc'
      rw [if_neg hc, if_neg]
      unfold pageIndex
      omega

/-! ## The loop -/

/-- The rounds from `i` on: a page covered by one of the remaining headers has its entry, every other
page keeps the one it had. -/
theorem processMapElf_loop (hi : Mappable m header) (ha : HeadersApart m header table) :
    ∀ (n i : Nat) (K : Kernel σ), ePhnum m header < i + n →
      ProcessDir K process dir f table → PageDir m dir f table →
      (K.elfFileAt (K.processAt process).ptr).elfMemory = header →
      (∀ x, OutsideTables table x → K.mem x = m x) →
      ∃ K' M, processMapElf.loop process (elfPheader m header) n i allOk K = (allOk, K') ∧
        K.MemOnly K' ∧ Mapped K.mem K'.mem dir f table M ∧
        (∀ page < 2 ^ 20, (∀ j, i ≤ j → j < ePhnum m header →
          ¬ (programHeader m header j).Covers page) → M page = pageEntry K.mem table page) ∧
        (∀ j, i ≤ j → j < ePhnum m header → ∀ page < 2 ^ 20,
          (programHeader m header j).Covers page →
            M page = (programHeader m header j).entry header page)
  | 0, i, K, hn, hd, _, _, _ => by
    refine ⟨K, pageEntry K.mem table, rfl, .refl K, .refl hd.pageDir, fun _ _ _ => rfl, ?_⟩
    intro j hj hlt
    omega
  | n + 1, i, K, hn, hd, hpd, hheader, hmem => by
    obtain ⟨hnum, -, hphdr⟩ := ha.same hpd hmem
    unfold processMapElf.loop
    rw [hheader, hnum]
    by_cases hlt : i < ePhnum m header
    · obtain ⟨K₁, hr₁, hk₁, hm₁⟩ := processMapElf_segment hd hheader hi.aligned (hi.fits i hlt)
      obtain ⟨K₂, M, hr₂, hk₂, hm₂, hout, hin⟩ := processMapElf_loop hi ha n (i + 1) K₁ (by omega)
        (hd.mapped hk₁ hm₁) hpd (by rw [hk₁.elfFileAt, hk₁.processAt, hheader])
        (fun x hx => (hm₁.outside x hx).trans (hmem x hx))
      have hentry : ∀ page < 2 ^ 20, pageEntry K₁.mem table page =
          (programHeader m header i).map header (pageEntry K.mem table) page := hm₁.entries
      refine ⟨K₂, M, ?_, hk₁.trans hk₂, hm₁.trans hm₂, fun page hpage hnone => ?_, ?_⟩
      · have hread : elf32Phdr K.mem (Word.add (elfPheader m header) (32 * i)) =
            programHeader m header i := hphdr i hlt
        rw [if_pos hlt]
        dsimp only
        rw [hread, hr₁]
        dsimp only
        rw [if_neg (by decide), hr₂]
      · rw [hout page hpage fun j hj hj' => hnone j (by omega) hj', hentry page hpage]
        exact if_neg (hnone i (Nat.le_refl i) hlt)
      · intro j hj hj' page hpage hcov
        rcases Nat.eq_or_lt_of_le hj with rfl | hj
        · -- no later header covers the page
          rw [hout page hpage fun j hj hj' hc =>
            hi.disjoint i hlt j hj' (by omega) page ⟨hcov, hc⟩, hentry page hpage]
          exact if_pos hcov
        · exact hin j hj hj' page hpage hcov
    · rw [if_neg hlt]
      refine ⟨K, pageEntry K.mem table, rfl, .refl K, .refl hd.pageDir, fun _ _ _ => rfl, ?_⟩
      intro j hj hj'
      omega

/-! ## What the program sees -/

/-- The directory of the task of a process. -/
def Kernel.directory (K : Kernel σ) (process : Nat) : Nat :=
  paging4gbChunkGetDirectory K.mem (K.queue.task (K.processAt process).task).pageDirectory

/-- Where the directory of a process takes the address `v`. -/
def Kernel.translate (K : Kernel σ) (process v : Nat) : Nat :=
  pagingGetPhyiscalAddress K.mem (K.directory process) v

/-- The entry of the page of the address `v`. -/
def Kernel.pageOf (K : Kernel σ) (process v : Nat) : Nat :=
  pagingGet K.mem (K.directory process) (pagingAlignToLowerPage v)

/-- Aligned addresses have no bits below the page. -/
theorem and_of_aligned {b c : Nat} (hb : b % 4096 = 0) (hc : c < 4096) : b &&& c = 0 := by
  obtain ⟨q, rfl⟩ : ∃ q, b = 2 ^ 12 * q := ⟨b / 4096, by omega⟩
  refine Nat.eq_of_testBit_eq fun i => ?_
  rw [Nat.testBit_and, Nat.testBit_two_pow_mul, Nat.zero_testBit]
  rcases Nat.lt_or_ge i 12 with hi | hi
  · rw [decide_eq_false (by omega)]
    rfl
  · rw [Nat.testBit_lt_two_pow (hc.trans_le (Nat.pow_le_pow_right Nat.two_pos hi)), Bool.and_false]

theorem Elf32Phdr.entry_eq {phdr : Elf32Phdr} (header page : Nat) :
    phdr.entry header page =
      (header + phdr.pOffset) / 4096 * 4096 + 4096 * (page - phdr.pVaddr / 4096) + phdr.flags :=
  Word.or_flags (by omega) phdr.flags_lt

theorem Elf32Phdr.entry_and {phdr : Elf32Phdr} (header page : Nat) {c : Nat} (hc : c < 4096) :
    phdr.entry header page &&& c = phdr.flags &&& c := by
  unfold Elf32Phdr.entry
  rw [Nat.and_or_distrib_right, and_of_aligned (by omega) hc, Nat.zero_or]

/-- The entry of a page of a segment is that of a page at user level, writable as the header says. -/
structure Elf32Phdr.Grants (phdr : Elf32Phdr) (entry : Nat) : Prop where
  present : entry &&& pagingIsPresent ≠ 0
  user : entry &&& pagingAccessFromAll ≠ 0
  writeable : entry &&& pagingIsWriteable ≠ 0 ↔ phdr.pFlags &&& pfW ≠ 0

theorem Elf32Phdr.entry_grants {phdr : Elf32Phdr} (header page : Nat) :
    phdr.Grants (phdr.entry header page) := by
  refine ⟨?_, ?_, ?_⟩
  · rw [phdr.entry_and header page (by decide)]
    unfold Elf32Phdr.flags
    split <;> decide
  · rw [phdr.entry_and header page (by decide)]
    unfold Elf32Phdr.flags
    split <;> decide
  · rw [phdr.entry_and header page (by decide)]
    unfold Elf32Phdr.flags
    by_cases hw : phdr.pFlags &&& pfW ≠ 0
    · rw [if_pos hw]
      exact iff_of_true (by decide) hw
    · rw [if_neg hw]
      exact iff_of_false (by decide) hw

theorem ProcessDir.reads (h : ProcessDir K process dir f table) :
    (∀ v < 2 ^ 32, K.pageOf process v = pageEntry K.mem table (v / 4096)) ∧
    ∀ v < 2 ^ 32, K.translate process v =
      pageEntry K.mem table (v / 4096) / 4096 * 4096 + v % 4096 :=
  ⟨(h.pageDir.reads h.chunk).get, (h.pageDir.reads h.chunk).physical⟩

/-- **ELF segments are mapped byte for byte**, and every page that no header covers keeps its
entry. -/
theorem process_map_elf_maps (hd : ProcessDir K process dir f table)
    (hheader : (K.elfFileAt (K.processAt process).ptr).elfMemory = header)
    (hi : Mappable K.mem header) (ha : HeadersApart K.mem header table) :
    ∃ K', processMapElf K process = (0, K') ∧
      (∀ i < ePhnum K.mem header, ∀ k < (programHeader K.mem header i).pMemsz,
        K'.translate process ((programHeader K.mem header i).pVaddr + k) =
          header + (programHeader K.mem header i).pOffset + k ∧
        (programHeader K.mem header i).Grants
          (K'.pageOf process ((programHeader K.mem header i).pVaddr + k))) ∧
      ∀ v < 2 ^ 32, (∀ i < ePhnum K.mem header, ¬ (programHeader K.mem header i).Covers (v / 4096)) →
        K'.pageOf process v = K.pageOf process v := by
  obtain ⟨K₀, hK₀⟩ : ∃ K₀, (K.follow (K.processAt process).ptr).follow header = K₀ := ⟨_, rfl⟩
  have hk₀ : K.MemOnly K₀ := by
    subst hK₀
    refine ⟨rfl, ?_⟩
    unfold Kernel.follow
    rw [follow_heap, follow_heap]
  have hmem₀ : K₀.mem = K.mem := by
    subst hK₀
    unfold Kernel.follow Kernel.mem
    rw [follow_mem, follow_mem]
  have hd₀ : ProcessDir K₀ process dir f table := by
    refine hd.mapped (M := pageEntry K.mem table) hk₀ ?_
    rw [hmem₀]
    exact .refl hd.pageDir
  have hnum : ePhnum K.mem header < 2 ^ 16 := by
    unfold ePhnum read16
    have h0 := (K.mem (Word.add header 44)).toNat_lt
    have h1 := (K.mem (Word.add header 44 + 1)).toNat_lt
    omega
  obtain ⟨K', M, hr, hk, hm, hout, hin⟩ := processMapElf_loop hi ha (2 ^ 16) 0 K₀ (by omega) hd₀
    hd.pageDir (by rw [hk₀.elfFileAt, hk₀.processAt, hheader]) fun x _ => by rw [hmem₀]
  obtain ⟨hpage, htrans⟩ := (hd₀.mapped hk hm).reads
  refine ⟨K', ?_, fun i hlt k hk => ?_, fun v hv hnone => ?_⟩
  · unfold processMapElf
    dsimp only
    have hfile : ((K.follow (K.processAt process).ptr).elfFileAt (K.processAt process).ptr).elfMemory =
        header := hheader
    rw [hfile, hK₀, hmem₀]
    exact hr
  · obtain ⟨phdr, hphdr⟩ : ∃ phdr, programHeader K.mem header i = phdr := ⟨_, rfl⟩
    rw [hphdr] at hk ⊢
    obtain ⟨hcong, hvirt, hphys⟩ := hphdr ▸ hi.fits i hlt
    have hcov : phdr.Covers ((phdr.pVaddr + k) / 4096) := by
      unfold Elf32Phdr.Covers
      omega
    have hentry : M ((phdr.pVaddr + k) / 4096) = phdr.entry header ((phdr.pVaddr + k) / 4096) := by
      have := hin i (Nat.zero_le i) hlt ((phdr.pVaddr + k) / 4096) (by omega)
      rw [hphdr] at this
      exact this hcov
    have hal := hi.aligned
    have hf := phdr.flags_lt
    rw [htrans _ (by omega), hpage _ (by omega), hm.entries _ (by omega), hentry]
    refine ⟨?_, phdr.entry_grants _ _⟩
    rw [phdr.entry_eq]
    omega
  · rw [hpage v hv, hm.entries _ (by omega), hout _ (by omega) fun j _ hj => hnone j hj, hmem₀,
      hd.reads.1 v hv]

end

/-! ## A small image -/

/-- An ELF header of 52 bytes. -/
def elfHeaderBytes (phoff phnum : Nat) : List UInt8 :=
  [0x7F, 0x45, 0x4C, 0x46, 1, 1, 1, 0, 0, 0, 0, 0, 0, 0, 0, 0,
    2, 0, 3, 0, 1, 0, 0, 0, 0, 0, 0x40, 0,
    byte phoff 0, byte phoff 1, byte phoff 2, byte phoff 3, 0, 0, 0, 0, 0, 0, 0, 0,
    52, 0, 32, 0, byte phnum 0, byte phnum 1, 40, 0, 0, 0, 0, 0]

/-- A program header of 32 bytes. -/
def phdrBytes (phdr : Elf32Phdr) : List UInt8 :=
  [byte phdr.pType 0, byte phdr.pType 1, byte phdr.pType 2, byte phdr.pType 3,
    byte phdr.pOffset 0, byte phdr.pOffset 1, byte phdr.pOffset 2, byte phdr.pOffset 3,
    byte phdr.pVaddr 0, byte phdr.pVaddr 1, byte phdr.pVaddr 2, byte phdr.pVaddr 3,
    byte phdr.pVaddr 0, byte phdr.pVaddr 1, byte phdr.pVaddr 2, byte phdr.pVaddr 3,
    byte phdr.pFilesz 0, byte phdr.pFilesz 1, byte phdr.pFilesz 2, byte phdr.pFilesz 3,
    byte phdr.pMemsz 0, byte phdr.pMemsz 1, byte phdr.pMemsz 2, byte phdr.pMemsz 3,
    byte phdr.pFlags 0, byte phdr.pFlags 1, byte phdr.pFlags 2, byte phdr.pFlags 3,
    0, 0x10, 0, 0]

/-- The bytes `l` lie at `a`. -/
def BytesAt (m : Mem) (a : Nat) (l : List UInt8) : Prop := ∀ k < l.length, m (a + k) = l.getD k 0

section

variable {m : Mem} {header a : Nat}

theorem BytesAt.left {l l' : List UInt8} (h : BytesAt m a (l ++ l')) : BytesAt m a l := fun k hk => by
  rw [h k (by rw [List.length_append]; omega), List.getD_append _ _ _ _ hk]

theorem BytesAt.right {l l' : List UInt8} (h : BytesAt m a (l ++ l')) :
    BytesAt m (a + l.length) l' := fun k hk => by
  rw [Nat.add_assoc, h _ (by rw [List.length_append]; omega), List.getD_append_right _ _ _ _ (by omega),
    Nat.add_sub_cancel_left]

/-- The word at place `k`. -/
theorem BytesAt.word {l : List UInt8} (h : BytesAt m a l) {k v : Nat} (hk : k + 4 ≤ l.length)
    (hend : a + l.length ≤ 2 ^ 32) (hv : v < 2 ^ 32)
    (hl : ∀ i < 4, l.getD (k + i) 0 = byte v i) : read32 m (Word.add a k) = v := by
  rw [Word.add_of_lt (by omega)]
  refine read32_of_bytes hv fun i hi => ?_
  rw [Nat.add_assoc, h _ (by omega), hl i hi]

theorem BytesAt.half {l : List UInt8} (h : BytesAt m a l) {k v : Nat} (hk : k + 2 ≤ l.length)
    (hend : a + l.length ≤ 2 ^ 32) (hv : v < 2 ^ 16)
    (hl : ∀ i < 2, l.getD (k + i) 0 = byte v i) : read16 m (Word.add a k) = v := by
  have hb : ∀ i < 2, m (a + k + i) = byte v i := fun i hi => by
    rw [Nat.add_assoc, h _ (by omega), hl i hi]
  have h0 : m (a + k) = byte v 0 := hb 0 (by decide)
  rw [Word.add_of_lt (by omega)]
  unfold read16
  rw [h0, hb 1 (by decide), byte_toNat, byte_toNat]
  omega

/-- The header that the bytes make. -/
theorem elfHeader_of_bytes {phoff phnum : Nat} (h : BytesAt m header (elfHeaderBytes phoff phnum))
    (hend : header + 52 ≤ 2 ^ 32) (hphoff : phoff < 2 ^ 32) (hne : phoff ≠ 0)
    (hphnum : phnum < 2 ^ 16) :
    ePhoff m header = phoff ∧ ePhnum m header = phnum ∧ elfValidateLoaded m header = allOk := by
  have hoff : ePhoff m header = phoff := h.word (show 28 + 4 ≤ 52 by decide) hend hphoff fun
    | 0, _ => rfl | 1, _ => rfl | 2, _ => rfl | 3, _ => rfl
  have hident : ∀ k v, k < 16 → (elfHeaderBytes phoff phnum).getD k 0 = v →
      m (Word.add header k) = v := fun k v hk hv => by
    rw [Word.add_of_lt (by omega), h k (hk.trans (show 16 < 52 by decide)), hv]
  have htype : eType m header = 2 := h.half (show 16 + 2 ≤ 52 by decide) hend (by decide) fun
    | 0, _ => rfl | 1, _ => rfl
  have hentry : eEntry m header = programVirtualAddress :=
    h.word (show 24 + 4 ≤ 52 by decide) hend (by decide) fun
      | 0, _ => show 0 = byte programVirtualAddress 0 by decide
      | 1, _ => show 0 = byte programVirtualAddress 1 by decide
      | 2, _ => show 0x40 = byte programVirtualAddress 2 by decide
      | 3, _ => show 0 = byte programVirtualAddress 3 by decide
  refine ⟨hoff, h.half (show 44 + 2 ≤ 52 by decide) hend hphnum fun
    | 0, _ => rfl | 1, _ => rfl, ?_⟩
  have h0 : m header = 0x7F := h 0 (show 0 < 52 by decide)
  have h1 : m (Word.add header 1) = 0x45 := hident 1 _ (by decide) rfl
  have h2 : m (Word.add header 2) = 0x4C := hident 2 _ (by decide) rfl
  have h3 : m (Word.add header 3) = 0x46 := hident 3 _ (by decide) rfl
  have h4 : m (Word.add header 4) = 1 := hident 4 _ (by decide) rfl
  have h5 : m (Word.add header 5) = 1 := hident 5 _ (by decide) rfl
  unfold elfValidateLoaded elfValidSignature elfValidClass elfValidEncoding elfHasProgramHeader
    elfIsExecutable
  simp [h0, h1, h2, h3, h4, h5, hoff, htype, hentry, hne]

/-- The fields of a program header are words. -/
structure Elf32Phdr.Words (phdr : Elf32Phdr) : Prop where
  pType : phdr.pType < 2 ^ 32
  pOffset : phdr.pOffset < 2 ^ 32
  pVaddr : phdr.pVaddr < 2 ^ 32
  pFilesz : phdr.pFilesz < 2 ^ 32
  pMemsz : phdr.pMemsz < 2 ^ 32
  pFlags : phdr.pFlags < 2 ^ 32

theorem elf32Phdr_of_bytes {phdr : Elf32Phdr} (h : BytesAt m a (phdrBytes phdr))
    (hend : a + 32 ≤ 2 ^ 32) (hw : phdr.Words) : elf32Phdr m a = phdr := by
  have hfirst : read32 m (Word.add a 0) = phdr.pType :=
    h.word (show 0 + 4 ≤ 32 by decide) hend hw.pType fun
      | 0, _ => rfl | 1, _ => rfl | 2, _ => rfl | 3, _ => rfl
  rw [Word.add_of_lt (show a + 0 < 2 ^ 32 by omega), Nat.add_zero] at hfirst
  have hoff : read32 m (Word.add a 4) = phdr.pOffset :=
    h.word (show 4 + 4 ≤ 32 by decide) hend hw.pOffset fun
      | 0, _ => rfl | 1, _ => rfl | 2, _ => rfl | 3, _ => rfl
  have hvaddr : read32 m (Word.add a 8) = phdr.pVaddr :=
    h.word (show 8 + 4 ≤ 32 by decide) hend hw.pVaddr fun
      | 0, _ => rfl | 1, _ => rfl | 2, _ => rfl | 3, _ => rfl
  have hfilesz : read32 m (Word.add a 16) = phdr.pFilesz :=
    h.word (show 16 + 4 ≤ 32 by decide) hend hw.pFilesz fun
      | 0, _ => rfl | 1, _ => rfl | 2, _ => rfl | 3, _ => rfl
  have hmemsz : read32 m (Word.add a 20) = phdr.pMemsz :=
    h.word (show 20 + 4 ≤ 32 by decide) hend hw.pMemsz fun
      | 0, _ => rfl | 1, _ => rfl | 2, _ => rfl | 3, _ => rfl
  have hflags : read32 m (Word.add a 24) = phdr.pFlags :=
    h.word (show 24 + 4 ≤ 32 by decide) hend hw.pFlags fun
      | 0, _ => rfl | 1, _ => rfl | 2, _ => rfl | 3, _ => rfl
  unfold elf32Phdr
  rw [hfirst, hoff, hvaddr, hfilesz, hmemsz, hflags]

end

/-- One segment of 100 bytes, of which the file has 84. -/
def smallPhdr : Elf32Phdr where
  pType := ptLoad
  pOffset := 0
  pVaddr := programVirtualAddress
  pFilesz := 84
  pMemsz := 100
  pFlags := pfW

def smallElf : List UInt8 := elfHeaderBytes 52 1 ++ phdrBytes smallPhdr

/-- The directory in block 0 and the tables behind it, the image at `0x100000`, and a chunk at
`0x200000`. -/
def smallMem : Mem := fun x =>
  if 0x01000000 ≤ x ∧ x < 0x01001000 then byte (blockAddr ((x - 0x01000000) / 4 + 1) + 7) (x % 4)
  else if 0x200000 ≤ x ∧ x < 0x200004 then byte 0x01000000 (x % 4)
  else smallElf.getD (x - 0x100000) 0

/-- A process at 2 with a task at 1 and the image's `struct elf_file` at 3. -/
def smallKernel : Kernel Unit where
  kmem := ⟨⟨⟨fun _ => 0, 0, []⟩, 0⟩, smallMem, false, false, false⟩
  queue := {
    task := fun _ => { pageDirectory := 0x200000 }
    head := 0
    tail := 0
    current := 0 }
  processAt := fun _ => { task := 1, ptr := 3 }
  elfFileAt := fun _ => { elfMemory := 0x100000 }
  processes := fun _ => 0
  currentProcess := 0
  files := ()

/-- A directory in block 0 and the tables in the blocks behind it. -/
theorem firstBlocks_pageDir {m : Mem} (h : ∀ x, 0x01000000 ≤ x → x < 0x01001000 →
    m x = byte (blockAddr ((x - 0x01000000) / 4 + 1) + 7) (x % 4)) :
    PageDir m 0x01000000 7 (fun i => blockAddr (i + 1)) where
  flags_lt := by decide
  dirWindow := ⟨by decide, by decide, by decide⟩
  window := fun i hi => inWindow_blockAddr (by omega)
  inj := fun i _ j _ h => Nat.succ.inj (blockAddr_inj.1 h)
  ne_dir := fun i _ => by
    unfold blockAddr
    omega
  entry := fun i hi => by
    refine read32_of_bytes (by have := blockAddr_lt (b := i + 1) (by omega); omega) fun j hj => ?_
    have hdiv : (0x01000000 + 4 * i + j - 0x01000000) / 4 = i := by omega
    have hmod : (0x01000000 + 4 * i + j) % 4 = j := by omega
    rw [h _ (by omega) (by omega), hdiv, hmod]

theorem smallKernel_dir :
    ProcessDir smallKernel 2 0x01000000 7 (fun i => blockAddr (i + 1)) where
  pageDir := firstBlocks_pageDir fun x hx hx' => if_pos ⟨hx, hx'⟩
  chunk := {
    directory := read32_of_bytes (by decide) fun j hj => by
      have hmod : (0x200000 + j) % 4 = j := by omega
      change smallMem (0x200000 + j) = _
      unfold smallMem
      rw [if_neg (by omega), if_pos (by omega), hmod]
    apart := fun i _ => by
      refine .inl ?_
      change 0x200000 + 4 ≤ blockAddr (i + 1)
      unfold blockAddr
      omega }

theorem smallMem_bytes : BytesAt smallMem 0x100000 (elfHeaderBytes 52 1 ++ phdrBytes smallPhdr) :=
  fun k hk => by
    have hk84 : k < 84 := hk
    unfold smallMem
    rw [if_neg (by omega), if_neg (by omega), Nat.add_sub_cancel_left]
    rfl

theorem smallMem_header : ePhoff smallMem 0x100000 = 52 ∧ ePhnum smallMem 0x100000 = 1 ∧
    elfValidateLoaded smallMem 0x100000 = allOk :=
  elfHeader_of_bytes smallMem_bytes.left (by decide) (by decide) (by decide) (by decide)

theorem smallMem_programHeader_addr : elfProgramHeader smallMem 0x100000 0 = 0x100034 := by
  unfold elfProgramHeader elfPheader
  rw [smallMem_header.1, if_neg (by decide), Word.add_of_lt (a := 0x100000) (by decide),
    Word.add_of_lt (by decide)]

theorem smallMem_programHeader : programHeader smallMem 0x100000 0 = smallPhdr := by
  unfold programHeader
  rw [smallMem_programHeader_addr]
  exact elf32Phdr_of_bytes smallMem_bytes.right (by decide)
    ⟨by decide, by decide, by decide, by decide, by decide, by decide⟩

theorem process_map_elf_maps_small :
    ∃ K', processMapElf smallKernel 2 = (0, K') ∧
      (∀ i < ePhnum smallKernel.mem 0x100000,
        ∀ k < (programHeader smallKernel.mem 0x100000 i).pMemsz,
          K'.translate 2 ((programHeader smallKernel.mem 0x100000 i).pVaddr + k) =
            0x100000 + (programHeader smallKernel.mem 0x100000 i).pOffset + k ∧
          (programHeader smallKernel.mem 0x100000 i).Grants
            (K'.pageOf 2 ((programHeader smallKernel.mem 0x100000 i).pVaddr + k))) ∧
      ∀ v < 2 ^ 32, (∀ i < ePhnum smallKernel.mem 0x100000,
        ¬ (programHeader smallKernel.mem 0x100000 i).Covers (v / 4096)) →
          K'.pageOf 2 v = smallKernel.pageOf 2 v := by
  have hfirst : ∀ i < ePhnum smallKernel.mem 0x100000, i = 0 := fun i hi => by
    rw [show ePhnum smallKernel.mem 0x100000 = 1 from smallMem_header.2.1] at hi
    omega
  refine process_map_elf_maps smallKernel_dir rfl ⟨smallMem_header.2.2, by decide, ?_, ?_⟩ ⟨?_, ?_⟩
  · intro i hi
    obtain rfl := hfirst i hi
    rw [show programHeader smallKernel.mem 0x100000 0 = smallPhdr from smallMem_programHeader]
    exact ⟨by decide, by decide, by decide⟩
  · intro i hi j hj hne
    exact absurd ((hfirst i hi).trans (hfirst j hj).symm) hne
  · intro k hk i _
    rw [Word.add_of_lt (by omega)]
    dsimp only [blockAddr]
    omega
  · intro i hi k hk j _
    obtain rfl := hfirst i hi
    rw [show elfProgramHeader smallKernel.mem 0x100000 0 = 0x100034 from smallMem_programHeader_addr,
      Word.add_of_lt (by omega)]
    dsimp only [blockAddr]
    omega

end Pandora
