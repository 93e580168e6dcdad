import Pandora.Process.Calls
import Pandora.Process.Isr80h
import Pandora.Process.Served

/-!
# What a process may write (`task/process.c`)

A user may write to a page whose entry grants it (`UserMay`). `WritableIn m table P`: all these pages show
frames of `P`. A load maps the image and the stack of the process for writing, and nothing else
(`Scope.processLoad_writable`), provided that the headers of the image and its segments that are to be
written lie in the blocks of the image (`Kernel.ImageInside`): `process_map_elf` maps a segment wherever
its header says.
-/

namespace Pandora

open ByteMem

/-- Each page that a user may write shows a frame of `P`. -/
def WritableIn (m : Mem) (table : Nat → Nat) (P : Nat → Nat → Prop) : Prop :=
  ∀ v < 2 ^ 20, pageEntry m table v &&& pagingUserWriteable = pagingUserWriteable →
    P v (pageEntry m table v / 4096)

/-- The frame is of the image or of the stack, or of an allocation that is mapped where it is. -/
inductive DataFrame (obj : Role → Option (Nat × Nat)) (v : Nat) : Nat → Prop where
  | image (b : Nat) : InChunk (obj .image) b → DataFrame obj v (4096 + b)
  | stack (b : Nat) : InChunk (obj .stack) b → DataFrame obj v (4096 + b)
  | allocation (i b : Nat) : InChunk (obj (.allocation i)) b → v = 4096 + b →
      DataFrame obj v (4096 + b)

/-- The blocks of the allocation at `a` are the `n` from `a` on. -/
structure Kernel.Spans {σ : Type} (K : Kernel σ) (a n : Nat) : Prop where
  chain : IsChain K.entries 25600 (blockOf a) n
  le : blockOf a + n ≤ 25600

theorem blockOf_addr (b : Nat) : blockOf (blockAddr b) = b := by
  unfold blockOf blockAddr
  omega

/-- The program headers and the segments that are to be written lie in the first `n` pages. -/
structure ImageFits (m : Mem) (header n : Nat) : Prop where
  headers : ePhoff m header + 32 * ePhnum m header ≤ 4096 * n
  segments : ∀ i < ePhnum m header, (programHeader m header i).pFlags &&& pfW ≠ 0 →
    (programHeader m header i).pOffset + (programHeader m header i).pMemsz ≤ 4096 * n

/-- The image of an ELF file keeps to its blocks. -/
def Kernel.ImageInside {σ : Type} (K : Kernel σ) (process : Nat) : Prop :=
  (K.processAt process).filetype = .elf →
    ∃ n, K.Spans (K.imageOf (K.processAt process).ptr) n ∧
      ImageFits K.mem (K.imageOf (K.processAt process).ptr) n

/-! ## Mapping -/

section

variable {σ : Type} {K K' : Kernel σ} {m : Mem} {process dir f flags b n : Nat} {table : Nat → Nat}
  {phdr : Elf32Phdr} {P : Nat → Nat → Prop}

/-- A mapping that is for writing shows frames of `P`. -/
theorem Kernel.mapTo_writable (hd : ProcessDir K process dir f table) {virt phys physEnd : Nat}
    (hv : virt % 4096 = 0) (hvlt : virt < 2 ^ 32) (helt : physEnd < 2 ^ 32) (hf : flags < 4096)
    (hP : WritableIn K.mem table P)
    (hnew : flags &&& pagingUserWriteable = pagingUserWriteable → ∀ v q, phys / 4096 ≤ q →
      4096 * q + 4096 ≤ physEnd → P v q) :
    WritableIn (K.mapTo process virt phys physEnd flags).2.mem table P := by
  obtain ⟨res, K', M, hr, -, hm, hcases⟩ := Kernel.mapTo_cases hd virt phys physEnd hv hvlt helt hf
  rw [hr]
  intro v hlt
  rw [hm.entries v hlt]
  rcases hcases with ⟨-, hp, he, hle, rfl⟩ | ⟨-, rfl⟩
  · unfold mapped
    split
    · rename_i hin
      have hadd : Word.add phys (4096 * pageIndex (virt / 4096) v) =
          phys + 4096 * pageIndex (virt / 4096) v := Word.add_of_lt (by omega)
      rw [hadd, Word.or_flags (by omega) hf]
      intro hw
      refine hnew ?_ v _ (by omega) (by omega)
      rw [and_userWriteable] at hw ⊢
      omega
    · exact hP v hlt
  · exact hP v hlt

theorem Elf32Phdr.flags_writable (phdr : Elf32Phdr)
    (h : phdr.flags &&& pagingUserWriteable = pagingUserWriteable) : phdr.pFlags &&& pfW ≠ 0 := by
  intro hno
  unfold Elf32Phdr.flags at h
  rw [if_neg (not_not_intro hno)] at h
  exact absurd h (by decide)

theorem processMapElf_segment_eq (K : Kernel σ) (process : Nat) (phdr : Elf32Phdr) :
    processMapElf.segment K process phdr = K.mapTo process (pagingAlignToLowerPage phdr.pVaddr)
      (pagingAlignToLowerPage (Word.add (K.imageOf (K.processAt process).ptr) phdr.pOffset))
      (pagingAlignAddress
        (Word.add (Word.add (K.imageOf (K.processAt process).ptr) phdr.pOffset) phdr.pMemsz))
      phdr.flags := rfl

theorem processMapElf_segment_remapped (hd : ProcessDir K process dir f table)
    (hv : phdr.pVaddr < 2 ^ 32) :
    K.Remapped (processMapElf.segment K process phdr).2 dir f table := by
  rw [processMapElf_segment_eq]
  refine Kernel.mapTo_remapped hd ?_ ?_ (pagingAlignAddress_lt (Word.add_lt _ _)) phdr.flags_lt
  · rw [pagingAlignToLowerPage_eq]
    omega
  · rw [pagingAlignToLowerPage_eq]
    omega

/-- A segment to be written that lies in the `n` blocks of the image. -/
theorem processMapElf_segment_writable (hd : ProcessDir K process dir f table)
    (hheader : K.imageOf (K.processAt process).ptr = blockAddr b) (hb : b + n ≤ 25600)
    (hv : phdr.pVaddr < 2 ^ 32) (hP : WritableIn K.mem table P)
    (hin : phdr.pFlags &&& pfW ≠ 0 → phdr.pOffset + phdr.pMemsz ≤ 4096 * n)
    (hnew : ∀ v j, b ≤ j → j < b + n → P v (4096 + j)) :
    WritableIn (processMapElf.segment K process phdr).2.mem table P := by
  rw [processMapElf_segment_eq, hheader]
  refine Kernel.mapTo_writable hd ?_ ?_ (pagingAlignAddress_lt (Word.add_lt _ _)) phdr.flags_lt hP
    fun hw v q hlo hhi => ?_
  · rw [pagingAlignToLowerPage_eq]
    omega
  · rw [pagingAlignToLowerPage_eq]
    omega
  · have hle := hin (phdr.flags_writable hw)
    have hend : blockAddr b + phdr.pOffset + phdr.pMemsz ≤ 2 ^ 32 - 4096 := by
      unfold blockAddr
      omega
    rw [Word.add_of_lt (a := blockAddr b) (by omega), pagingAlignToLowerPage_eq] at hlo
    rw [Word.add_of_lt (a := blockAddr b) (by omega), Word.add_of_lt (by omega),
      pagingAlignAddress_eq hend] at hhi
    unfold blockAddr at hlo hhi
    obtain ⟨j, rfl⟩ : ∃ j, q = 4096 + j := ⟨q - 4096, by omega⟩
    exact hnew v j (by omega) (by omega)

/-- The rounds from `i` on, with the headers as in `m`. -/
theorem processMapElf_loop_writable (ha : HeadersApart m (blockAddr b) table)
    (hpd : PageDir m dir f table) (hb : b + n ≤ 25600) (hfits : ImageFits m (blockAddr b) n)
    (hnew : ∀ v j, b ≤ j → j < b + n → P v (4096 + j)) :
    ∀ (rounds i : Nat) (res : Int) (K : Kernel σ), ProcessDir K process dir f table →
      K.imageOf (K.processAt process).ptr = blockAddr b →
      (∀ x, OutsideTables table x → K.mem x = m x) → WritableIn K.mem table P →
      WritableIn (processMapElf.loop process (elfPheader m (blockAddr b)) rounds i res K).2.mem table P
  | 0, _, _, _, _, _, _, hP => hP
  | rounds + 1, i, res, K, hd, hheader, hmem, hP => by
    have hheader' : (K.elfFileAt (K.processAt process).ptr).elfMemory = blockAddr b := hheader
    obtain ⟨hnum, -, hphdr⟩ := ha.same hpd hmem
    unfold processMapElf.loop
    rw [hheader', hnum]
    split
    · rename_i hlt
      have hread : elf32Phdr K.mem (Word.add (elfPheader m (blockAddr b)) (32 * i)) =
          programHeader m (blockAddr b) i := hphdr i hlt
      rw [hread]
      have hv := programHeader_pVaddr_lt m (blockAddr b) i
      have hseg := processMapElf_segment_remapped hd hv
      have hP₁ := processMapElf_segment_writable hd hheader hb hv hP (hfits.segments i hlt) hnew
      dsimp only
      split
      · exact hP₁
      · obtain ⟨M, hM⟩ := hseg.mapped
        refine processMapElf_loop_writable ha hpd hb hfits hnew rounds (i + 1) _ _
          (hseg.processDir hd) ?_ (fun x hx => (hM.outside x hx).trans (hmem x hx)) hP₁
        unfold Kernel.imageOf
        rw [hseg.memOnly.elfFileAt, hseg.memOnly.processAt]
        exact hheader
    · exact hP

/-! ## The memory of a new process -/

variable {obj : Role → Option (Nat × Nat)}

/-- Headers that fit in the image lie in none of the tables. -/
theorem ImageFits.headersApart (h : ImageFits m (blockAddr b) n) (hn : 1 ≤ n) (hb : b + n ≤ 25600)
    (hpd : PageDir m dir f table)
    (hout : ∀ x, blockAddr b ≤ x → x < blockAddr b + 4096 * n → OutsideTables table x) :
    HeadersApart m (blockAddr b) table := by
  have hlt : blockAddr b + 4096 * n ≤ 2 ^ 28 := by
    unfold blockAddr
    omega
  have hheaders := h.headers
  refine ⟨fun k hk => ?_, fun i hi k hk => ?_⟩
  · rw [Word.add_of_lt (by omega)]
    exact hout _ (by omega) (by omega)
  · have hnum := ePhnum_lt m (blockAddr b)
    by_cases hphoff : ePhoff m (blockAddr b) = 0
    · -- without program headers the first pages of the memory are read
      have hat : Word.add (elfProgramHeader m (blockAddr b) i) k = 32 * i + k := by
        unfold elfProgramHeader elfPheader
        rw [if_pos hphoff, Word.add_of_lt (a := 0) (by omega), Nat.zero_add,
          Word.add_of_lt (by omega)]
      rw [hat]
      intro t ht
      have hlo := (hpd.window t ht).lo
      omega
    · rw [elfProgramHeader_eq hphoff, Word.add_of_lt (a := blockAddr b) (by omega),
        Word.add_of_lt (by omega), Nat.add_assoc]
      exact hout _ (by omega) (by omega)

/-- The stack is mapped to its blocks. -/
theorem mapStack_writable (hd : ProcessDir K process dir f table)
    (hstack : ∃ b n, obj .stack = some (b, n) ∧ (K.processAt process).stack = blockAddr b ∧
      userProgramStackSize ≤ 4096 * n)
    (hle : ∀ r b n, obj r = some (b, n) → b + n ≤ 25600)
    (hP : WritableIn K.mem table (DataFrame obj)) :
    WritableIn (K.mapTo process programVirtualStackAddressEnd (K.processAt process).stack
      (pagingAlignAddress (Word.add (K.processAt process).stack userProgramStackSize))
      pagingUserWriteable).2.mem table (DataFrame obj) := by
  obtain ⟨b, n, hb, hptr, hsize⟩ := hstack
  have hbn := hle _ _ _ hb
  refine Kernel.mapTo_writable hd (by decide) (by decide) (pagingAlignAddress_lt (Word.add_lt _ _))
    (by decide) hP fun _ v q hlo hhi => ?_
  have hend : blockAddr b + userProgramStackSize ≤ 2 ^ 32 - 4096 := by
    unfold blockAddr
    omega
  rw [hptr, Word.add_of_lt (by omega), pagingAlignAddress_eq hend] at hhi
  rw [hptr] at hlo
  unfold blockAddr at hlo hhi
  obtain ⟨j, rfl⟩ : ∃ j, q = 4096 + j := ⟨q - 4096, by omega⟩
  exact .stack j ⟨b, n, hb, by omega, by omega⟩

theorem processMapBinary_writable (hd : ProcessDir K process dir f table) {bi ni : Nat}
    (hptr : (K.processAt process).ptr = blockAddr bi) (hsize : (K.processAt process).size ≤ 4096 * ni)
    (hi : obj .image = some (bi, ni)) (hbn : bi + ni ≤ 25600)
    (hP : WritableIn K.mem table (DataFrame obj)) :
    WritableIn (processMapBinary K process).2.mem table (DataFrame obj) := by
  unfold processMapBinary
  dsimp only
  refine Kernel.mapTo_writable hd (by decide) (by decide) (pagingAlignAddress_lt (Word.add_lt _ _))
    (by decide) hP fun _ v q hlo hhi => ?_
  have hend : blockAddr bi + (K.processAt process).size ≤ 2 ^ 32 - 4096 := by
    unfold blockAddr
    omega
  rw [hptr, Word.add_of_lt (by omega), pagingAlignAddress_eq hend] at hhi
  rw [hptr] at hlo
  unfold blockAddr at hlo hhi
  obtain ⟨j, rfl⟩ : ∃ j, q = 4096 + j := ⟨q - 4096, by omega⟩
  exact .image j ⟨bi, ni, hi, by omega, by omega⟩

theorem processMapElf_writable (hd : ProcessDir K process dir f table) {bi ni : Nat}
    (hheader : K.imageOf (K.processAt process).ptr = blockAddr bi) (hi : obj .image = some (bi, ni))
    (hbn : bi + ni ≤ 25600) (hpd : PageDir m dir f table)
    (hmem : ∀ x, OutsideTables table x → K.mem x = m x) (hfits : ImageFits m (blockAddr bi) ni)
    (ha : HeadersApart m (blockAddr bi) table) (hP : WritableIn K.mem table (DataFrame obj)) :
    WritableIn (processMapElf K process).2.mem table (DataFrame obj) := by
  obtain ⟨hk₁, hmem₁⟩ := K.follow_memOnly (K.processAt process).ptr
  obtain ⟨hk₂, hmem₂⟩ := (K.follow (K.processAt process).ptr).follow_memOnly (blockAddr bi)
  obtain ⟨L, hL⟩ : ∃ L, (K.follow (K.processAt process).ptr).follow (blockAddr bi) = L := ⟨_, rfl⟩
  rw [hL] at hk₂ hmem₂
  have hk : K.MemOnly L := hk₁.trans hk₂
  have hmemL : L.mem = K.mem := hmem₂.trans hmem₁
  have hdL : ProcessDir L process dir f table := by
    refine hd.mapped (M := pageEntry K.mem table) hk ?_
    rw [hmemL]
    exact .refl hd.pageDir
  obtain ⟨-, hpheader, -⟩ := ha.same hpd hmem
  have hfile : ((K.follow (K.processAt process).ptr).elfFileAt (K.processAt process).ptr).elfMemory =
      blockAddr bi := hheader
  unfold processMapElf
  dsimp only
  rw [hfile, hL, hmemL, hpheader]
  refine processMapElf_loop_writable ha hpd hbn hfits (fun v j hlo hhi => ?_) _ _ _ L hdL ?_
    (fun x hx => by rw [hmemL, hmem x hx]) (hmemL ▸ hP)
  · exact .image j ⟨bi, ni, hi, hlo, hhi⟩
  · unfold Kernel.imageOf
    rw [hk.elfFileAt, hk.processAt]
    exact hheader

/-- `process_map_memory` maps the image and the stack for writing. -/
theorem processMapMemory_writable (hd : ProcessDir K process dir f table)
    (hprogram : ProgramAt K obj process)
    (hstack : ∃ b n, obj .stack = some (b, n) ∧ (K.processAt process).stack = blockAddr b ∧
      userProgramStackSize ≤ 4096 * n)
    (hle : ∀ r b n, obj r = some (b, n) → b + n ≤ 25600) (hpd : PageDir m dir f table)
    (hmem : ∀ x, OutsideTables table x → K.mem x = m x)
    (himage : ∀ b n, (K.processAt process).filetype = .elf → obj .image = some (b, n) →
      K.imageOf (K.processAt process).ptr = blockAddr b →
      ImageFits m (blockAddr b) n ∧ HeadersApart m (blockAddr b) table)
    (hP : WritableIn K.mem table (DataFrame obj)) :
    WritableIn (processMapMemory K process).2.mem table (DataFrame obj) := by
  have hmapped : ∀ {r : Int × Kernel σ}, K.Remapped r.2 dir f table →
      WritableIn r.2.mem table (DataFrame obj) →
      WritableIn (if r.1 < 0 then (r.1, r.2) else (r.1, (r.2.mapTo process
        programVirtualStackAddressEnd (r.2.processAt process).stack
        (pagingAlignAddress (Word.add (r.2.processAt process).stack userProgramStackSize))
        pagingUserWriteable).2)).2.mem table (DataFrame obj) := fun {r} hr hP' => by
    split
    · exact hP'
    · refine mapStack_writable (hr.processDir hd) ?_ hle hP'
      rw [hr.memOnly.processAt]
      exact hstack
  cases hprogram with
  | elf be ne bi ni hft hptr helf hat hi =>
    rw [← hptr] at hat
    obtain ⟨hfits, ha⟩ := himage bi ni hft hi hat
    unfold processMapMemory
    rw [hft]
    dsimp only
    exact hmapped (processMapElf_remapped hd)
      (processMapElf_writable hd hat hi (hle _ _ _ hi) hpd hmem hfits ha hP)
  | binary bi ni hft hptr hsize helf hi =>
    unfold processMapMemory
    rw [hft]
    dsimp only
    exact hmapped (processMapBinary_remapped hd)
      (processMapBinary_writable hd hptr hsize hi (hle _ _ _ hi) hP)

/-- The directory of a process has one set of tables. -/
theorem ProcessDir.table_eq {dir' : Nat} {table' : Nat → Nat} (h : ProcessDir K process dir f table)
    (h' : ProcessDir K process dir' f table') {i : Nat} (hi : i < 1024) : table' i = table i := by
  obtain rfl : dir = dir' := h.chunk.directory.symm.trans h'.chunk.directory
  have he := h.pageDir.entry i hi
  rw [h'.pageDir.entry i hi] at he
  omega

theorem WritableIn.congr {table' : Nat → Nat} (h : WritableIn m table P)
    (ht : ∀ i < 1024, table' i = table i) : WritableIn m table' P := fun v hv => by
  have he : pageEntry m table' v = pageEntry m table v := by
    unfold pageEntry entryAddr
    rw [ht (v / 1024) (by omega)]
  rw [he]
  exact h v hv

end

/-! ## Records -/

section

variable {σ : Type} {K K' : Kernel σ} {m m' : Mem} {process dir f b n i v frame : Nat}
  {table : Nat → Nat} {obj obj' : Role → Option (Nat × Nat)}

theorem DataFrame.mono (h : DataFrame obj v frame) (hobj : ∀ r c, obj r = some c → obj' r = some c) :
    DataFrame obj' v frame := by
  have hin : ∀ {r j}, InChunk (obj r) j → InChunk (obj' r) j := fun ⟨b, n, hr, hj⟩ =>
    ⟨b, n, hobj _ _ hr, hj⟩
  cases h with
  | image b hb => exact .image b (hin hb)
  | stack b hb => exact .stack b (hin hb)
  | allocation i b hb hv => exact .allocation i b (hin hb) hv

/-- More records. -/
theorem WritableIn.grown (h : WritableIn m table (DataFrame obj)) (hg : Grown m m' table obj obj') :
    WritableIn m' table (DataFrame obj') := fun v hv hw => by
  rcases hg.pages v hv with he | ⟨i, b, hb, rfl, he⟩
  · rw [he] at hw ⊢
    exact (h v hv hw).mono hg.kept
  · have hframe : (4096 * (4096 + b) ||| pagingUserWriteable) / 4096 = 4096 + b := by
      rw [Word.or_flags (by omega) (by decide)]
      have huser : pagingUserWriteable = 7 := rfl
      omega
    rw [he, hframe]
    exact .allocation i b hb rfl

/-- A record less: no page shows its blocks any more, as they were at their own addresses. -/
theorem WritableIn.released (h : WritableIn K.mem table (DataFrame obj))
    (hr : Released K K' process dir f table i b n) (hi : obj (.allocation i) = some (b, n))
    (hbn : b + n ≤ 25600) :
    WritableIn K'.mem table (DataFrame (Function.update obj (.allocation i) none)) := fun v hv hw => by
  rw [hr.mapped.entries v hv] at hw ⊢
  unfold mapped at hw ⊢
  split at hw
  · rw [Nat.or_zero, and_userWriteable, Word.add_eq] at hw
    have huser : pagingUserWriteable = 7 := rfl
    unfold blockAddr at hw
    omega
  · rename_i hout
    rw [if_neg hout]
    have hkeep : ∀ {r j}, r ≠ .allocation i → InChunk (obj r) j →
        InChunk (Function.update obj (.allocation i) none r) j := fun hr hj => by
      rwa [Function.update_of_ne hr]
    obtain ⟨frame, hframe⟩ : ∃ frame, pageEntry K.mem table v / 4096 = frame := ⟨_, rfl⟩
    have hdata := h v hv hw
    rw [hframe] at hdata ⊢
    cases hdata with
    | image j hj => exact .image j (hkeep (by simp) hj)
    | stack j hj => exact .stack j (hkeep (by simp) hj)
    | allocation i' j hj hvj =>
      by_cases hii : i' = i
      · subst hii
        obtain ⟨b', n', hr', hlo, hhi⟩ := hj
        rw [hi] at hr'
        cases hr'
        unfold pageIndex at hout
        omega
      · exact .allocation i' j (hkeep (by simpa using hii) hj) hvj

end

/-! ## Loads -/

section

variable {σ : Type} {F : FileLayer σ} {owned : σ → Nat → Prop} {rest : Nat → Prop}
  {K₀ K K' : Kernel σ} {obj : Role → Option (Nat × Nat)} {filename : List UInt8}
  {process dir b n : Nat} {table : Nat → Nat}

/-- A load ends with the mappings, on a directory that lets a user write nowhere. -/
theorem Scope.task_mapped (h : Scope owned rest K₀ K obj) (hnone : Untasked obj) {bp np out slot : Nat}
    (hprocess : process = blockAddr bp) (hbp : obj .process = some (bp, np))
    (hs : (Pandora.taskNew (K.setProcess process { K.processAt process with id := slot })
      process).2.kmem.Sound)
    (hres : 0 ≤ (processLoadForSlot.task K out process slot).1) :
    ∃ L dir, ∃ table : Nat → Nat, ProcessDir L process dir pagingUserWriteable table ∧
      (∀ P, WritableIn L.mem table P) ∧
      processLoadForSlot.task K out process slot =
        ((processLoadForSlot.task K out process slot).1, process,
          { (processMapMemory L process).2 with
            processes := Function.update (processMapMemory L process).2.processes slot process }) := by
  obtain ⟨K₁, hK₁⟩ : ∃ K₁, K.setProcess process { K.processAt process with id := slot } = K₁ :=
    ⟨_, rfl⟩
  rw [hK₁] at hs
  have h₁ : Scope owned rest K₀ K₁ obj := by
    rw [← hK₁, hprocess]
    exact h.setProcess hbp _
  obtain ⟨t, n, K₂, chunk, dir, table, ht, htlt, -, htask, -⟩ := h₁.taskNew hnone hs
  obtain ⟨K₄, hmap, heq⟩ := processLoadForSlot_task_success htlt (hK₁ ▸ ht) hres
  obtain ⟨L, hL⟩ : ∃ L, K₂.setProcess process { K₂.processAt process with task := blockAddr t } = L :=
    ⟨_, rfl⟩
  rw [hL] at hmap
  have hmem : L.mem = K₂.mem := by
    rw [← hL]
    rfl
  have hchunk : (L.queue.task (L.processAt process).task).pageDirectory = chunk := by
    rw [← hL, ← htask.pageDirectory]
    unfold Kernel.setProcess
    dsimp only
    rw [Function.update_self]
  refine ⟨L, dir, table, ⟨hmem ▸ htask.pageDir, ?_⟩, fun P v hv hw => ?_, ?_⟩
  · rw [hchunk, hmem]
    exact htask.chunkOf
  · -- the pages show themselves, and are for reading
    rw [hmem, htask.identity v hv, Word.or_flags (by omega) (by decide), and_userWriteable] at hw
    have hflags : pagingIsPresent ||| pagingAccessFromAll = 5 := rfl
    have huser : pagingUserWriteable = 7 := rfl
    omega
  · rw [hmap]
    exact heq

/-- A load that succeeds ends with the mappings. -/
theorem Scope.processLoad_mapped (hF : F.Sound owned) (hR : F.Regular)
    (h : Scope owned rest K₀ K fun _ : Role => none) {out stale : Nat}
    (hres : 0 ≤ (Pandora.processLoad F K filename out stale).1)
    (hs : (Pandora.processLoad F K filename out stale).2.2.kmem.Sound) :
    ∃ L process dir processes, ∃ table : Nat → Nat,
      ProcessDir L process dir pagingUserWriteable table ∧ (∀ P, WritableIn L.mem table P) ∧
      Pandora.processLoad F K filename out stale =
        ((Pandora.processLoad F K filename out stale).1, process,
          { (processMapMemory L process).2 with processes := processes }) := by
  obtain ⟨slot, -, process, K₁, -, -, hz, hp, heq⟩ := processLoad_success hres
  rw [heq] at hres hs ⊢
  have hs₁ := (processLoadForSlot_process_rises hF.rises K₁ filename out process slot).sound hs
  rcases h.kzalloc (i := .process) rfl (show 1 ≤ sizeofProcess by decide) (by decide)
    (by rw [hz]; exact hs₁) with ⟨he, -⟩ | ⟨bp, np, -, -, -, he, h₁⟩
  · rw [hz] at he
    exact absurd (congrArg Prod.fst he) hp
  rw [hz, Prod.mk.injEq] at he
  obtain ⟨rfl, hK₁⟩ := he
  rw [← hK₁] at h₁
  obtain ⟨K₂, stack, K₃, hdata, rfl, hstack, hne, heq₂⟩ := processLoadForSlot_process_success hres
  have hsd := (processLoadForSlot_process_data_rises K₁ filename out (blockAddr bp) slot).sound hs
  obtain ⟨res, K₂', he₂, hcases⟩ := h₁.newData hF hR rfl (Function.update_self _ _ _)
    (fun r hr => Function.update_of_ne hr _ _) hsd
  rw [he₂] at hdata hstack
  rcases hcases with ⟨obj', rfl, -, -⟩ | ⟨hneg, -⟩
  case inr => exact absurd hdata (not_le.2 hneg)
  have hstage : TaskStage F K₁ filename (blockAddr bp) stack K₂' K₃ := ⟨he₂, hstack, hne⟩
  obtain ⟨M, hM⟩ : ∃ M, K₃.setProcess (blockAddr bp)
    { K₃.processAt (blockAddr bp) with stack := stack } = M := ⟨_, rfl⟩
  have hst := (hstage.task_rises hM out slot).sound hs
  have hsM : K₃.kmem.Sound := by
    have hrises := (taskNew_rises (M.setProcess (blockAddr bp)
      { M.processAt (blockAddr bp) with id := slot }) (blockAddr bp)).sound hst
    rw [← hM] at hrises
    exact hrises
  obtain ⟨obj', hloading⟩ := h₁.atTask hF hR rfl (Function.update_self _ _ _)
    (fun r hr => Function.update_of_ne hr _ _) hstage hsM
  rw [hM] at hloading heq₂
  obtain ⟨bp', np', hbp', hprocess'⟩ := hloading.block
  rw [heq₂] at hres ⊢
  obtain ⟨L, dir, table, hd, hP, heq₃⟩ :=
    hloading.scope.task_mapped hloading.untasked hprocess' hbp' hst hres
  exact ⟨L, _, dir, _, table, hd, hP, heq₃⟩

/-- **A load maps for writing** the image and the stack of the process, and nothing else. -/
theorem Scope.processLoad_writable (hF : F.Sound owned) (hR : F.Regular)
    (h : Scope owned rest K₀ K fun _ : Role => none) {out stale slot : Nat} {res : Int}
    (he : Pandora.processLoad F K filename out stale = (res, process, K')) (hres : 0 ≤ res)
    (hs : K'.kmem.Sound) (hsucceeded : Succeeded owned rest K₀ K K' process slot obj dir table)
    (hin : K'.ImageInside process) : WritableIn K'.mem table (DataFrame obj) := by
  have hlive := hsucceeded.live
  have hscope := hsucceeded.scope
  have hle : ∀ r b n, obj r = some (b, n) → b + n ≤ 25600 := fun r b n hr => (hscope.chain r b n hr).1
  have hst : 0 ≤ (Pandora.processLoad F K filename out stale).1 := by
    rw [he]
    exact hres
  obtain ⟨L, process', dir', processes, table', hd, hP, heq⟩ :=
    h.processLoad_mapped hF hR hst (by rw [he]; exact hs)
  rw [he, Prod.mk.injEq, Prod.mk.injEq] at heq
  obtain ⟨-, rfl, hK'⟩ := heq
  have hr := processMapMemory_remapped hd
  obtain ⟨K₄, hK₄⟩ : ∃ K₄, (processMapMemory L process).2 = K₄ := ⟨_, rfl⟩
  rw [hK₄] at hr hK'
  have hmem : K'.mem = K₄.mem := by
    rw [hK']
    rfl
  have hproc : K'.processAt = L.processAt := by
    rw [hK', ← hr.memOnly.processAt]
  have hfile : K'.elfFileAt = L.elfFileAt := by
    rw [hK', ← hr.memOnly.elfFileAt]
  have hqueue : K'.queue = L.queue := by
    rw [hK', ← hr.memOnly.queue]
  have hd' : ProcessDir K' process dir' pagingUserWriteable table' := by
    have hd₄ := hr.processDir hd
    refine ⟨hmem ▸ hd₄.pageDir, ?_⟩
    rw [hqueue, hproc, ← hr.memOnly.queue, ← hr.memOnly.processAt, hmem]
    exact hd₄.chunk
  have htable : ∀ i < 1024, table' i = table i := fun i hi =>
    hlive.toProcessDir.table_eq hd' hi
  have himageOf : ∀ a, K'.imageOf a = L.imageOf a := fun a => by
    unfold Kernel.imageOf
    rw [hfile]
  suffices hw : WritableIn K₄.mem table' (DataFrame obj) by
    rw [hmem]
    exact hw.congr fun i hi => (htable i hi).symm
  rw [← hK₄]
  refine processMapMemory_writable (m := K₄.mem) hd (hlive.program.congr ?_ ?_ ?_ ?_ fun _ _ => rfl) ?_
    hle (hr.processDir hd).pageDir (fun x hx => ?_) (fun bi ni hft hi hat => ?_) (hP _)
  · rw [hproc]
  · rw [hproc]
  · rw [hproc]
  · rw [himageOf]
  · rw [← hproc]
    exact hlive.stack
  · obtain ⟨M, hM⟩ := hr.mapped
    exact (hM.outside x hx).symm
  · rw [← hproc] at hft
    obtain ⟨n, hspans, hfits⟩ := hin hft
    rw [himageOf, hproc, hat, hmem] at hfits
    rw [himageOf, hproc, hat] at hspans
    obtain ⟨hbn, hchain⟩ := hscope.chain _ _ _ hi
    have hspan := hspans.chain
    rw [blockOf_addr] at hspan
    have hn : n ≤ ni := hchain.length_le hspan hbn
    have hfits' : ImageFits K₄.mem (blockAddr bi) ni :=
      ⟨hfits.headers.trans (by omega), fun i hi hw => (hfits.segments i hi hw).trans (by omega)⟩
    refine ⟨hfits', hfits'.headersApart hchain.pos hbn (hr.processDir hd).pageDir
      fun x hlo hhi i hi' => ?_⟩
    -- the blocks of the tables are others than those of the image
    rw [htable i hi']
    have happart := hscope.disjoint hi (hlive.tables i hi') (by simp)
    obtain ⟨-, hwindow⟩ := (hlive.pageDir.window i hi').blockAddr
    unfold blockAddr at hlo hhi hwindow
    omega

end

end Pandora
