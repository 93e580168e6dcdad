import Pandora.Process.Defs

/-!
# The ghosts only go up

`Kmem.Rises k k'`: a fault or a short run that is recorded in `k` is recorded in `k'`. Every function
on the kernel keeps the record, so a function that ends without one (`Kmem.Sound`) had none on the
way. The file layer is to do the same (`FileLayer.Rises`).
-/

namespace Pandora

open ByteMem

structure Kmem.Rises (k k' : Kmem) : Prop where
  fault : k.fault = true → k'.fault = true
  short : k.short = true → k'.short = true

/-- No null or error pointer was followed, and no allocation ran short. -/
structure Kmem.Sound (k : Kmem) : Prop where
  fault : k.fault = false
  short : k.short = false

namespace Kmem.Rises

variable {k k' k'' : Kmem}

theorem refl (k : Kmem) : k.Rises k := ⟨id, id⟩

theorem trans (h : k.Rises k') (h' : k'.Rises k'') : k.Rises k'' :=
  ⟨h'.fault ∘ h.fault, h'.short ∘ h.short⟩

theorem sound (h : k.Rises k') (hs : k'.Sound) : k.Sound where
  fault := by
    rw [← Bool.not_eq_true]
    intro hf
    exact absurd (h.fault hf) (by simp [hs.fault])
  short := by
    rw [← Bool.not_eq_true]
    intro hf
    exact absurd (h.short hf) (by simp [hs.short])

/-- Only the heap has changed. -/
theorem heap (k : Kmem) (h : Heap) : k.Rises { k with heap := h } := ⟨id, id⟩

/-- Only the bytes have changed. -/
theorem mem (k : Kmem) (m : Mem) : k.Rises { k with mem := m } := ⟨id, id⟩

end Kmem.Rises

/-! ## The heap -/

section

variable {k k' : Kmem}

theorem follow_rises (k : Kmem) (p : Nat) : k.Rises (k.follow p) := by
  refine ⟨fun h => follow_fault h p, fun h => ?_⟩
  unfold Kmem.follow
  split <;> exact h

theorem kzalloc_rises (k : Kmem) (size : Nat) : k.Rises (kzalloc k size).2 := by
  unfold kzalloc kmalloc
  dsimp only
  split <;> exact ⟨id, fun h => by simp [h]⟩

/-- An allocation follows no pointer. -/
theorem kzalloc_fault (k : Kmem) (size : Nat) : (kzalloc k size).2.fault = k.fault := by
  unfold kzalloc kmalloc
  dsimp only
  split <;> rfl

theorem kfree_rises (k : Kmem) (p : Nat) : k.Rises (kfree k p) :=
  (follow_rises k p).trans (.heap _ _)

theorem Kmem.Sound.quiet (h : k.Sound) (hq : k.Quiet k') : k'.Sound :=
  ⟨hq.fault.trans h.fault, hq.short.trans h.short⟩

/-- A null or error pointer is a fault. -/
theorem follow_sound {p : Nat} (h : (k.follow p).Sound) : p ≠ 0 ∧ k.follow p = k := by
  have hf := h.fault
  unfold Kmem.follow at hf ⊢
  by_cases hp : p = 0 ∨ iserr p
  · rw [if_pos hp] at hf
    cases hf
  · rw [if_neg hp]
    exact ⟨fun h0 => hp (.inl h0), rfl⟩

theorem pagingNew4gb_loop_rises (directory flags : Nat) :
    ∀ (n i offset : Nat) (k : Kmem), k.Rises (pagingNew4gb.loop directory flags n i offset k)
  | 0, _, _, k => .refl k
  | n + 1, i, offset, k => by
    unfold pagingNew4gb.loop
    obtain ⟨⟨entry, k₁⟩, h₁⟩ : ∃ r, kzalloc k 4096 = r := ⟨_, rfl⟩
    have hr₁ : k.Rises k₁ := by
      have := kzalloc_rises k 4096
      rwa [h₁] at this
    rw [h₁]
    dsimp only
    generalize pagingNew4gb.fill entry offset flags 1024 0 _ = m
    refine .trans ?_ (pagingNew4gb_loop_rises directory flags n (i + 1) _ _)
    exact hr₁.trans ((follow_rises k₁ entry).trans ((follow_rises _ directory).trans (.mem _ _)))

theorem pagingNew4gb_rises (k : Kmem) (flags : Nat) : k.Rises (pagingNew4gb k flags).2 := by
  unfold pagingNew4gb
  obtain ⟨⟨directory, k₁⟩, h₁⟩ : ∃ r, kzalloc k 4096 = r := ⟨_, rfl⟩
  have hr₁ : k.Rises k₁ := by
    have := kzalloc_rises k 4096
    rwa [h₁] at this
  rw [h₁]
  dsimp only
  have hr₂ := pagingNew4gb_loop_rises directory flags 1024 0 0 k₁
  generalize pagingNew4gb.loop directory flags 1024 0 0 k₁ = k₂ at hr₂ ⊢
  obtain ⟨⟨chunk, k₃⟩, h₃⟩ : ∃ r, kzalloc k₂ 4 = r := ⟨_, rfl⟩
  have hr₃ : k₂.Rises k₃ := by
    have := kzalloc_rises k₂ 4
    rwa [h₃] at this
  rw [h₃]
  exact hr₁.trans (hr₂.trans (hr₃.trans ((follow_rises k₃ chunk).trans (.mem _ _))))

theorem pagingFree4gb_loop_rises (chunk : Nat) :
    ∀ (n i : Nat) (k : Kmem), k.Rises (pagingFree4gb.loop chunk n i k)
  | 0, _, k => .refl k
  | n + 1, i, k => by
    unfold pagingFree4gb.loop
    dsimp only
    refine .trans ?_ (pagingFree4gb_loop_rises chunk n (i + 1) _)
    exact (follow_rises k chunk).trans ((follow_rises _ _).trans (kfree_rises _ _))

theorem pagingFree4gb_rises (k : Kmem) (chunk : Nat) : k.Rises (pagingFree4gb k chunk) := by
  have hr := pagingFree4gb_loop_rises chunk 1024 0 k
  unfold pagingFree4gb
  generalize pagingFree4gb.loop chunk 1024 0 k = k₁ at hr ⊢
  exact hr.trans ((kfree_rises k₁ _).trans (kfree_rises _ chunk))

end

/-! ## The kernel -/

/-- The ghosts only go up in the calls of the file layer. -/
structure FileLayer.Rises {σ : Type} (F : FileLayer σ) : Prop where
  fopen : ∀ filename s (k : Kmem), k.Rises (F.fopen filename s k).2.2
  fread : ∀ ptr size nmemb fd s (k : Kmem), k.Rises (F.fread ptr size nmemb fd s k).2.2
  fclose : ∀ fd s (k : Kmem), k.Rises (F.fclose fd s k).2.2

section

variable {σ : Type} {F : FileLayer σ}

namespace Kernel

theorem follow_rises (K : Kernel σ) (p : Nat) : K.kmem.Rises (K.follow p).kmem :=
  Pandora.follow_rises K.kmem p

theorem follow_sound {K : Kernel σ} {p : Nat} (h : (K.follow p).kmem.Sound) :
    p ≠ 0 ∧ K.follow p = K := by
  obtain ⟨hne, he⟩ := Pandora.follow_sound (k := K.kmem) h
  refine ⟨hne, ?_⟩
  unfold Kernel.follow
  rw [he]

theorem kzalloc_rises (K : Kernel σ) (size : Nat) : K.kmem.Rises (K.kzalloc size).2.kmem :=
  Pandora.kzalloc_rises K.kmem size

theorem kfree_rises (K : Kernel σ) (p : Nat) : K.kmem.Rises (K.kfree p).kmem :=
  Pandora.kfree_rises K.kmem p

theorem fopen_rises (hF : F.Rises) (K : Kernel σ) (filename : List UInt8) :
    K.kmem.Rises (K.fopen F filename).2.kmem :=
  hF.fopen filename K.files K.kmem

theorem fread_rises (hF : F.Rises) (K : Kernel σ) (ptr size nmemb : Nat) (fd : Int) :
    K.kmem.Rises (K.fread F ptr size nmemb fd).2.kmem :=
  hF.fread ptr size nmemb fd K.files K.kmem

theorem fclose_rises (hF : F.Rises) (K : Kernel σ) (fd : Int) :
    K.kmem.Rises (K.fclose F fd).kmem :=
  hF.fclose fd K.files K.kmem

theorem mapTo_rises (K : Kernel σ) (process virt phys physEnd flags : Nat) :
    K.kmem.Rises (K.mapTo process virt phys physEnd flags).2.kmem :=
  (follow_rises K _).trans ((follow_rises _ _).trans (.mem _ _))

end Kernel

/-! ## Tasks -/

theorem taskInit_rises (K : Kernel σ) (task process : Nat) :
    K.kmem.Rises (taskInit K task process).2.kmem := by
  have hr := pagingNew4gb_rises K.kmem (pagingIsPresent ||| pagingAccessFromAll)
  unfold taskInit
  generalize pagingNew4gb K.kmem (pagingIsPresent ||| pagingAccessFromAll) = r at hr ⊢
  obtain ⟨pageDirectory, k⟩ := r
  dsimp only at hr ⊢
  split
  · exact hr
  · split
    · exact hr.trans ((follow_rises k _).trans ((follow_rises _ _).trans (follow_rises _ _)))
    · exact hr.trans (follow_rises k _)

theorem taskFree_follow_rises (K : Kernel σ) (task : Nat) :
    (K.follow task).kmem.Rises (taskFree K task).kmem :=
  (pagingFree4gb_rises _ _).trans (kfree_rises _ task)

theorem taskFree_rises (K : Kernel σ) (task : Nat) : K.kmem.Rises (taskFree K task).kmem :=
  (K.follow_rises task).trans (taskFree_follow_rises K task)

/-- Also from the allocation of the task on. -/
theorem taskNew_kzalloc_rises (K : Kernel σ) (process : Nat) :
    (K.kzalloc sizeofTask).2.kmem.Rises (taskNew K process).2.kmem := by
  unfold taskNew
  generalize K.kzalloc sizeofTask = r
  obtain ⟨task, K₁⟩ := r
  dsimp only
  have hi : K₁.kmem.Rises
      (if task = 0 then (-enomem, K₁) else taskInit K₁ task process).2.kmem := by
    split
    · exact .refl _
    · exact taskInit_rises K₁ task process
  generalize (if task = 0 then (-enomem, K₁) else taskInit K₁ task process) = r at hi ⊢
  obtain ⟨res, K₂⟩ := r
  dsimp only at hi ⊢
  split
  · exact hi.trans (taskFree_rises K₂ task)
  · refine hi.trans ?_
    dsimp only
    split
    · exact .refl _
    · exact follow_rises K₂.kmem _

/-- A null task is freed. -/
theorem taskNew_kzalloc_ne {K : Kernel σ} {process : Nat} (hs : (taskNew K process).2.kmem.Sound) :
    (K.kzalloc sizeofTask).1 ≠ 0 := fun hzero => by
  obtain ⟨⟨task, K₁⟩, hz⟩ : ∃ r, K.kzalloc sizeofTask = r := ⟨_, rfl⟩
  rw [hz] at hzero
  subst hzero
  unfold taskNew at hs
  rw [hz] at hs
  dsimp only at hs
  rw [if_pos rfl] at hs
  dsimp only at hs
  rw [if_pos (by decide)] at hs
  exact (Kernel.follow_sound ((taskFree_follow_rises K₁ 0).sound hs)).1 rfl

theorem taskNew_rises (K : Kernel σ) (process : Nat) :
    K.kmem.Rises (taskNew K process).2.kmem :=
  (K.kzalloc_rises sizeofTask).trans (taskNew_kzalloc_rises K process)

/-! ## ELF files -/

theorem elfFileNew_kmem (K : Kernel σ) :
    (elfFileNew K).2.kmem = (K.kzalloc sizeofElfFile).2.kmem := by
  unfold elfFileNew
  dsimp only
  split <;> rfl

theorem elfFileNew_rises (K : Kernel σ) : K.kmem.Rises (elfFileNew K).2.kmem := by
  rw [elfFileNew_kmem]
  exact K.kzalloc_rises sizeofElfFile

theorem elfFileFree_rises (K : Kernel σ) (elfFile : Nat) :
    K.kmem.Rises (elfFileFree K elfFile).kmem := by
  have hr := K.follow_rises elfFile
  unfold elfFileFree
  generalize K.follow elfFile = K₁ at hr ⊢
  dsimp only
  split
  · exact hr.trans ((K₁.kfree_rises _).trans (Kernel.kfree_rises _ _))
  · exact hr.trans (K₁.kfree_rises _)

theorem elfClose_rises (K : Kernel σ) (file : Nat) : K.kmem.Rises (elfClose K file).kmem := by
  unfold elfClose
  split
  · exact .refl _
  · exact (K.follow_rises file).trans ((Kernel.kfree_rises _ _).trans (Kernel.kfree_rises _ _))

/-- Also from the two pointers on. -/
theorem elfProcessLoaded_follow_rises (K : Kernel σ) (elfFile : Nat) :
    ((K.follow elfFile).follow (K.elfFileAt elfFile).elfMemory).kmem.Rises
      (elfProcessLoaded K elfFile).2.kmem := by
  unfold elfProcessLoaded
  dsimp only
  split <;> exact .refl _

theorem elfProcessLoaded_rises (K : Kernel σ) (elfFile : Nat) :
    K.kmem.Rises (elfProcessLoaded K elfFile).2.kmem :=
  (K.follow_rises elfFile).trans
    ((Kernel.follow_rises _ _).trans (elfProcessLoaded_follow_rises K elfFile))

theorem elfLoad_out_rises (hF : F.Rises) (K : Kernel σ) (elfFile : Nat) (fd res : Int) :
    K.kmem.Rises (elfLoad.out F K elfFile fd res).2.kmem := by
  unfold elfLoad.out
  dsimp only
  split
  · exact (elfFileFree_rises K elfFile).trans (Kernel.fclose_rises hF _ fd)
  · exact K.fclose_rises hF fd

theorem elfLoad_opened_rises (hF : F.Rises) (K : Kernel σ) (elfFile : Nat) (fd : Int) :
    K.kmem.Rises (elfLoad.opened F K elfFile fd).2.kmem := by
  unfold elfLoad.opened
  obtain ⟨⟨res, filesize⟩, hs⟩ : ∃ r, K.fstat F fd = r := ⟨_, rfl⟩
  rw [hs]
  dsimp only
  split
  · exact elfLoad_out_rises hF K elfFile fd res
  · have hr := K.kzalloc_rises filesize
    generalize K.kzalloc filesize = r at hr ⊢
    obtain ⟨elfMemory, K₁⟩ := r
    dsimp only at hr ⊢
    obtain ⟨K₂, hK₂⟩ : ∃ K₂, (K₁.follow elfFile).setElfFile elfFile
      { (K₁.follow elfFile).elfFileAt elfFile with elfMemory := elfMemory } = K₂ := ⟨_, rfl⟩
    have hr₂ : K₁.kmem.Rises K₂.kmem := hK₂ ▸ K₁.follow_rises elfFile
    rw [hK₂]
    have hr₃ := K₂.fread_rises hF elfMemory filesize 1 fd
    generalize K₂.fread F elfMemory filesize 1 fd = r at hr₃ ⊢
    obtain ⟨res, K₃⟩ := r
    dsimp only at hr₃ ⊢
    have hsofar := hr.trans (hr₂.trans hr₃)
    split
    · exact hsofar.trans (elfLoad_out_rises hF K₃ elfFile fd res)
    · have hr₄ := elfProcessLoaded_rises K₃ elfFile
      generalize elfProcessLoaded K₃ elfFile = r at hr₄ ⊢
      obtain ⟨res, K₄⟩ := r
      exact hsofar.trans (hr₄.trans (elfLoad_out_rises hF K₄ elfFile fd res))

/-- Also from the new `elf_file` on. -/
theorem elfLoad_new_rises (hF : F.Rises) (K : Kernel σ) (filename : List UInt8) :
    (elfFileNew K).2.kmem.Rises (elfLoad F K filename).2.2.kmem := by
  unfold elfLoad
  generalize elfFileNew K = r
  obtain ⟨elfFile, K₁⟩ := r
  dsimp only
  have hr₂ := K₁.fopen_rises hF filename
  generalize K₁.fopen F filename = r at hr₂ ⊢
  obtain ⟨fd, K₂⟩ := r
  dsimp only at hr₂ ⊢
  split
  · exact hr₂.trans (elfLoad_out_rises hF K₂ elfFile 0 (-eio))
  · exact hr₂.trans (elfLoad_opened_rises hF K₂ elfFile fd)

theorem elfLoad_rises (hF : F.Rises) (K : Kernel σ) (filename : List UInt8) :
    K.kmem.Rises (elfLoad F K filename).2.2.kmem :=
  (elfFileNew_rises K).trans (elfLoad_new_rises hF K filename)

/-! ## Processes -/

theorem processFree_rises (K : Kernel σ) (process ptr : Nat) :
    K.kmem.Rises (processFree K process ptr).kmem := by
  unfold processFree
  split
  · exact .refl _
  · rename_i index _
    dsimp only
    generalize pagingAlignAddress _ = physEnd
    have hr := K.mapTo_rises process ((K.processAt process).allocations index).ptr
      ((K.processAt process).allocations index).ptr physEnd 0
    generalize K.mapTo process _ _ physEnd 0 = r at hr ⊢
    obtain ⟨res, K₁⟩ := r
    dsimp only at hr ⊢
    split
    · exact hr
    · exact hr.trans (Kernel.kfree_rises _ ptr)

theorem processTerminateAllocations_loop_rises (process : Nat) :
    ∀ (n i : Nat) (K : Kernel σ),
      K.kmem.Rises (processTerminateAllocations.loop process n i K).kmem
  | 0, _, K => .refl _
  | n + 1, i, K => by
    unfold processTerminateAllocations.loop
    dsimp only
    refine .trans ?_ (processTerminateAllocations_loop_rises process n (i + 1) _)
    split
    · exact processFree_rises K process _
    · exact .refl _

theorem processFreeProgramData_rises (K : Kernel σ) (process : Nat) :
    K.kmem.Rises (processFreeProgramData K process).kmem := by
  unfold processFreeProgramData processFreeBinaryData processFreeElfData
  split
  · split
    · exact K.kfree_rises _
    · exact .refl _
  · split
    · exact elfClose_rises K _
    · exact .refl _

theorem processFreeProcess_rises (K : Kernel σ) (process : Nat) :
    K.kmem.Rises (processFreeProcess K process).kmem := by
  unfold processFreeProcess
  have hr₀ := K.follow_rises process
  generalize K.follow process = K₀ at hr₀ ⊢
  have hr₁ : K₀.kmem.Rises (processTerminateAllocations K₀ process).kmem :=
    processTerminateAllocations_loop_rises process maxProgramAllocations 0 K₀
  dsimp only
  generalize processTerminateAllocations K₀ process = K₁ at hr₁ ⊢
  have hr₂ := processFreeProgramData_rises K₁ process
  generalize processFreeProgramData K₁ process = K₂ at hr₂ ⊢
  have hr₃ : K₂.kmem.Rises (if (K₂.processAt process).stack ≠ 0 then
      (K₂.kfree (K₂.processAt process).stack).setProcess process
        { K₂.processAt process with stack := 0 }
    else K₂).kmem := by
    split
    · exact K₂.kfree_rises _
    · exact .refl _
  generalize (if (K₂.processAt process).stack ≠ 0 then _ else K₂) = K₃ at hr₃ ⊢
  have hr₄ : K₃.kmem.Rises (if (K₃.processAt process).task ≠ 0 then
      (taskFree K₃ (K₃.processAt process).task).setProcess process
        { K₃.processAt process with task := 0 }
    else K₃).kmem := by
    split
    · exact taskFree_rises K₃ _
    · exact .refl _
  generalize (if (K₃.processAt process).task ≠ 0 then _ else K₃) = K₄ at hr₄ ⊢
  exact hr₀.trans (hr₁.trans (hr₂.trans (hr₃.trans (hr₄.trans (K₄.kfree_rises process)))))

/-! ## Loading -/

theorem processLoadBinary_out_rises (hF : F.Rises) (K : Kernel σ) (programDataPtr : Nat)
    (fd res : Int) : K.kmem.Rises (processLoadBinary.out F K programDataPtr fd res).2.kmem := by
  unfold processLoadBinary.out
  dsimp only
  split
  · exact (K.kfree_rises programDataPtr).trans (Kernel.fclose_rises hF _ fd)
  · exact K.fclose_rises hF fd

theorem processLoadBinary_opened_rises (hF : F.Rises) (K : Kernel σ) (process : Nat) (fd : Int) :
    K.kmem.Rises (processLoadBinary.opened F K process fd).2.kmem := by
  unfold processLoadBinary.opened
  obtain ⟨⟨res, filesize⟩, hs⟩ : ∃ r, K.fstat F fd = r := ⟨_, rfl⟩
  rw [hs]
  dsimp only
  split
  · exact processLoadBinary_out_rises hF K 0 fd res
  · have hr₂ := K.kzalloc_rises filesize
    generalize K.kzalloc filesize = r at hr₂ ⊢
    obtain ⟨programDataPtr, K₂⟩ := r
    dsimp only at hr₂ ⊢
    refine hr₂.trans ?_
    split
    · exact processLoadBinary_out_rises hF K₂ 0 fd (-enomem)
    · have hr₃ := K₂.fread_rises hF programDataPtr filesize 1 fd
      generalize K₂.fread F programDataPtr filesize 1 fd = r at hr₃ ⊢
      obtain ⟨read, K₃⟩ := r
      dsimp only at hr₃ ⊢
      refine hr₃.trans ?_
      split
      · exact processLoadBinary_out_rises hF K₃ programDataPtr fd (-eio)
      · exact processLoadBinary_out_rises hF (K₃.setProcess process _) programDataPtr fd allOk

theorem processLoadBinary_rises (hF : F.Rises) (K : Kernel σ) (filename : List UInt8)
    (process : Nat) : K.kmem.Rises (processLoadBinary F K filename process).2.kmem := by
  have hr := K.fopen_rises hF filename
  unfold processLoadBinary
  generalize K.fopen F filename = r at hr ⊢
  obtain ⟨fd, K₁⟩ := r
  dsimp only at hr ⊢
  split
  · exact hr.trans (processLoadBinary_out_rises hF K₁ 0 0 (-eio))
  · exact hr.trans (processLoadBinary_opened_rises hF K₁ process fd)

theorem processLoadData_rises (hF : F.Rises) (K : Kernel σ) (filename : List UInt8)
    (process : Nat) : K.kmem.Rises (processLoadData F K filename process).2.kmem := by
  have hr : K.kmem.Rises (processLoadElf F K filename process).2.kmem := by
    have hr := elfLoad_rises hF K filename
    unfold processLoadElf
    generalize elfLoad F K filename = r at hr ⊢
    obtain ⟨res, elfFile, K₁⟩ := r
    dsimp only at hr ⊢
    split <;> exact hr
  unfold processLoadData
  generalize processLoadElf F K filename process = r at hr ⊢
  obtain ⟨res, K₁⟩ := r
  dsimp only at hr ⊢
  split
  · exact hr.trans (processLoadBinary_rises hF K₁ filename process)
  · exact hr

theorem processMapElf_loop_rises (process phdrs : Nat) :
    ∀ (n i : Nat) (res : Int) (K : Kernel σ),
      K.kmem.Rises (processMapElf.loop process phdrs n i res K).2.kmem
  | 0, _, _, K => .refl _
  | n + 1, i, res, K => by
    unfold processMapElf.loop
    split
    · have hr : K.kmem.Rises (processMapElf.segment K process
          (elf32Phdr K.mem (Word.add phdrs (32 * i)))).2.kmem := Kernel.mapTo_rises K process _ _ _ _
      generalize elf32Phdr K.mem (Word.add phdrs (32 * i)) = phdr at hr ⊢
      dsimp only
      generalize processMapElf.segment K process phdr = r at hr ⊢
      obtain ⟨res, K₁⟩ := r
      dsimp only at hr ⊢
      split
      · exact hr
      · exact hr.trans (processMapElf_loop_rises process phdrs n (i + 1) res K₁)
    · exact .refl _

theorem processMapElf_rises (K : Kernel σ) (process : Nat) :
    K.kmem.Rises (processMapElf K process).2.kmem := by
  have hr := (K.follow_rises (K.processAt process).ptr).trans (Kernel.follow_rises _
    ((K.follow (K.processAt process).ptr).elfFileAt (K.processAt process).ptr).elfMemory)
  unfold processMapElf
  dsimp only
  generalize (K.follow (K.processAt process).ptr).follow
    ((K.follow (K.processAt process).ptr).elfFileAt (K.processAt process).ptr).elfMemory = K₁ at hr ⊢
  exact hr.trans (processMapElf_loop_rises process _ (2 ^ 16) 0 allOk K₁)

theorem processMapMemory_rises (K : Kernel σ) (process : Nat) :
    K.kmem.Rises (processMapMemory K process).2.kmem := by
  have helf := processMapElf_rises K process
  have hbinary : K.kmem.Rises (processMapBinary K process).2.kmem := by
    unfold processMapBinary
    dsimp only
    apply Kernel.mapTo_rises
  unfold processMapMemory
  cases (K.processAt process).filetype
  · dsimp only
    generalize processMapElf K process = r at helf ⊢
    split
    · exact helf
    · dsimp only
      apply helf.trans
      apply Kernel.mapTo_rises
  · dsimp only
    generalize processMapBinary K process = r at hbinary ⊢
    split
    · exact hbinary
    · dsimp only
      apply hbinary.trans
      apply Kernel.mapTo_rises

theorem processLoadForSlot_out_rises (K : Kernel σ) (out process : Nat) (res : Int) :
    K.kmem.Rises (processLoadForSlot.out K out process res).2.2.kmem := by
  unfold processLoadForSlot.out
  split
  · exact processFreeProcess_rises K process
  · exact .refl _

/-- Also from the new task on. -/
theorem processLoadForSlot_task_new_rises (K : Kernel σ) (out process processSlot : Nat) :
    (taskNew (K.setProcess process { K.processAt process with id := processSlot })
      process).2.kmem.Rises (processLoadForSlot.task K out process processSlot).2.2.kmem := by
  unfold processLoadForSlot.task
  dsimp only
  generalize taskNew (K.setProcess process { K.processAt process with id := processSlot })
    process = r
  obtain ⟨task, K₁⟩ := r
  dsimp only
  obtain ⟨K₂, hK₂⟩ : ∃ K₂, K₁.setProcess process
    { K₁.processAt process with task := task } = K₂ := ⟨_, rfl⟩
  have hr₂ : K₁.kmem.Rises K₂.kmem := hK₂ ▸ .refl K₁.kmem
  rw [hK₂]
  refine hr₂.trans ?_
  split
  · exact processLoadForSlot_out_rises (K₂.setProcess process _) out process _
  · have hr₃ := processMapMemory_rises K₂ process
    generalize processMapMemory K₂ process = r at hr₃ ⊢
    obtain ⟨res, K₃⟩ := r
    dsimp only at hr₃ ⊢
    split
    · exact hr₃.trans (processLoadForSlot_out_rises K₃ out process res)
    · exact hr₃

theorem processLoadForSlot_task_rises (K : Kernel σ) (out process processSlot : Nat) :
    K.kmem.Rises (processLoadForSlot.task K out process processSlot).2.2.kmem :=
  (taskNew_rises (K.setProcess process _) process).trans
    (processLoadForSlot_task_new_rises K out process processSlot)

/-- From the data on. -/
theorem processLoadForSlot_process_data_rises (K : Kernel σ) (filename : List UInt8)
    (out process processSlot : Nat) :
    (processLoadData F (K.setProcess process {}) filename process).2.kmem.Rises
      (processLoadForSlot.process F K filename out process processSlot).2.2.kmem := by
  unfold processLoadForSlot.process
  dsimp only
  generalize processLoadData F (K.setProcess process {}) filename process = r
  obtain ⟨res, K₁⟩ := r
  dsimp only
  split
  · exact processLoadForSlot_out_rises K₁ out process res
  · have hr₂ := K₁.kzalloc_rises userProgramStackSize
    generalize K₁.kzalloc userProgramStackSize = r at hr₂ ⊢
    obtain ⟨stack, K₂⟩ := r
    dsimp only at hr₂ ⊢
    obtain ⟨K₃, hK₃⟩ : ∃ K₃, K₂.setProcess process
      { K₂.processAt process with stack := stack } = K₃ := ⟨_, rfl⟩
    have hr₃ : K₂.kmem.Rises K₃.kmem := hK₃ ▸ .refl K₂.kmem
    rw [hK₃]
    refine hr₂.trans (hr₃.trans ?_)
    split
    · exact processLoadForSlot_out_rises K₃ out process (-enomem)
    · exact processLoadForSlot_task_rises K₃ out process processSlot

theorem processLoadForSlot_process_rises (hF : F.Rises) (K : Kernel σ) (filename : List UInt8)
    (out process processSlot : Nat) : K.kmem.Rises
      (processLoadForSlot.process F K filename out process processSlot).2.2.kmem :=
  (processLoadData_rises hF (K.setProcess process {}) filename process).trans
    (processLoadForSlot_process_data_rises K filename out process processSlot)

theorem processLoadForSlot_rises (hF : F.Rises) (K : Kernel σ) (filename : List UInt8)
    (out stale processSlot : Nat) : K.kmem.Rises
      (processLoadForSlot F K filename out stale processSlot).2.2.kmem := by
  unfold processLoadForSlot
  split
  · split
    · exact .refl _
    · refine .trans ?_ (processLoadForSlot_out_rises _ out stale (-eistkn))
      exact ⟨fun _ => rfl, id⟩
  · have hr := K.kzalloc_rises sizeofProcess
    generalize K.kzalloc sizeofProcess = r at hr ⊢
    obtain ⟨process, K₁⟩ := r
    dsimp only at hr ⊢
    split
    · exact hr
    · exact hr.trans (processLoadForSlot_process_rises hF K₁ filename out process processSlot)

theorem processLoad_rises (hF : F.Rises) (K : Kernel σ) (filename : List UInt8)
    (out stale : Nat) : K.kmem.Rises (processLoad F K filename out stale).2.2.kmem := by
  unfold processLoad
  dsimp only
  split
  · exact .refl _
  · exact processLoadForSlot_rises hF K filename out stale _

end

end Pandora
