import Pandora.Paging.Teardown
import Pandora.Process.Outcome

/-!
# Loads without a fault (`task/process.c`, `loader/formats/elf_loader.c`)

Which loads follow no bad pointer. Not checked are the `elf_file`, the image of an ELF file, the task and the
pages of its directory: where one of these requests is refused, the null pointer is followed
(`DataServed`, `Scope.taskNew_sound_iff`); where none is, no call of the load follows one, however it ends
(`Scope.elfLoad_sound_iff`, `Scope.processLoadData_sound_iff`). What the calls of the file layer do with
pointers of their own is part of the condition.
-/

namespace Pandora

open ByteMem

/-! ## Conditions -/

section

variable {σ : Type}

/-- `fclose` follows no bad pointer. -/
def FileLayer.ClosesCarefully (F : FileLayer σ) : Prop :=
  ∀ fd s k, (F.fclose fd s k).2.2.fault = k.fault

/-- `elf_load` gets its `elf_file`, `fopen` and `fread` follow no bad pointer, and an image that is read is
not at null. -/
structure ElfServed (F : FileLayer σ) (K : Kernel σ) (filename : List UInt8) : Prop where
  elfFile : (freeBlocks K.kmem.heap).Nonempty
  fopen : ((elfFileNew K).2.fopen F filename).2.kmem.fault = false
  fread : ∀ fd K', (elfFileNew K).2.fopen F filename = (fd, K') → 0 < fd →
    (elfLoad.image F K' (elfFileNew K).1 fd).2.2.kmem.fault = false
  image : ∀ fd K', (elfFileNew K).2.fopen F filename = (fd, K') → 0 < fd →
    0 ≤ (elfLoad.image F K' (elfFileNew K).1 fd).1 →
    (elfLoad.image F K' (elfFileNew K).1 fd).2.2.imageOf (elfFileNew K).1 ≠ 0

/-- In `process_load_binary` only the calls of the file layer could follow one. -/
structure BinaryServed (F : FileLayer σ) (K : Kernel σ) (filename : List UInt8) : Prop where
  fopen : (K.fopen F filename).2.kmem.fault = false
  fread : ∀ fd K₁ size ptr K₂, K.fopen F filename = (fd, K₁) → fd ≠ 0 →
    K₁.fstat F fd = (allOk, size) → K₁.kzalloc size = (ptr, K₂) → ptr ≠ 0 →
    (K₂.fread F ptr size 1 fd).2.kmem.fault = false

/-- The two for `process_load_data`. -/
structure DataServed (F : FileLayer σ) (K : Kernel σ) (filename : List UInt8) : Prop where
  elf : ElfServed F K filename
  binary : (elfLoad F K filename).1 = -einformat → BinaryServed F (elfLoad F K filename).2.2 filename

end

/-! ## ELF files -/

section

variable {σ : Type} {F : FileLayer σ} {owned : σ → Nat → Prop} {rest : Nat → Prop}
  {K₀ K K' : Kernel σ} {obj : Role → Option (Nat × Nat)} {filename : List UInt8} {fd : Int}
  {be ne b : Nat}

theorem Kmem.Rises.short_eq {k k' : Kmem} (h : k.Rises k') (hs : k'.short = false) : k.short = false := by
  rw [← Bool.not_eq_true] at hs ⊢
  exact hs ∘ h.short

/-- `fclose` in particular. -/
theorem FileLayer.ClosesCarefully.sound (hC : F.ClosesCarefully) (hs : K.kmem.Sound)
    (hshort : (K.fclose F fd).kmem.short = false) : (K.fclose F fd).kmem.Sound :=
  ⟨(hC fd K.files K.kmem).trans hs.fault, hshort⟩

/-- `elf_file_free` follows pointers to the file and its image. -/
theorem Scope.elfFileFree_quiet (h : Scope owned rest K₀ K obj) (helf : obj .elfFile = some (be, ne))
    (hat : ImageAt K obj (blockAddr be)) : K.kmem.Quiet (Pandora.elfFileFree K (blockAddr be)).kmem := by
  have hbe := (h.pos helf).2
  unfold Pandora.elfFileFree
  dsimp only
  rw [Kernel.follow_blockAddr hbe]
  have htwo : ∀ {b}, b < 25600 → (K.elfFileAt (blockAddr be)).elfMemory = blockAddr b →
      K.kmem.Quiet ((if (K.elfFileAt (blockAddr be)).elfMemory ≠ 0 then
        K.kfree (K.elfFileAt (blockAddr be)).elfMemory else K).kfree (blockAddr be)).kmem :=
    fun {b} hb hptr => by
      rw [hptr, if_pos (blockAddr_ne_zero b)]
      exact (kfree_quiet hb K.kmem).trans (kfree_quiet hbe _)
  cases hat with
  | image bi ni himage hptr => exact htwo (h.pos himage).2 hptr
  | null _ hptr =>
    have hptr' : (K.elfFileAt (blockAddr be)).elfMemory = 0 := hptr
    rw [hptr', if_neg (not_not_intro rfl)]
    exact kfree_quiet hbe K.kmem
  | empty b _ hptr hb _ => exact htwo hb hptr

/-- From the label `out` of `elf_load` on. -/
theorem Scope.elfOut_sound (hC : F.ClosesCarefully) (h : Scope owned rest K₀ K obj)
    (helf : obj .elfFile = some (be, ne)) (hat : ImageAt K obj (blockAddr be)) (hs : K.kmem.Sound)
    {res : Int} (hshort : (elfLoad.out F K (blockAddr be) fd res).2.kmem.short = false) :
    (elfLoad.out F K (blockAddr be) fd res).2.kmem.Sound := by
  unfold elfLoad.out at hshort ⊢
  by_cases hres : res < 0
  · rw [if_pos hres] at hshort ⊢
    exact hC.sound (hs.quiet (h.elfFileFree_quiet helf hat)) hshort
  · rw [if_neg hres] at hshort ⊢
    exact hC.sound hs hshort

/-- The image of an open file is at the address of a block. -/
theorem ImageAt.blockAddr (h : Scope owned rest K₀ K obj) (hat : ImageAt K obj be)
    (hne : K.imageOf be ≠ 0) : ∃ b < 25600, K.imageOf be = Pandora.blockAddr b := by
  cases hat with
  | image bi ni himage hptr => exact ⟨bi, (h.pos himage).2, hptr⟩
  | null _ hptr => exact absurd hptr hne
  | empty b _ hptr hb _ => exact ⟨b, hb, hptr⟩

/-- `elf_process_loaded` writes to the `elf_file` only. -/
theorem elfProcessLoaded_kmem (hbe : be < 25600) (hb : b < 25600)
    (himage : K.imageOf (blockAddr be) = blockAddr b) :
    (elfProcessLoaded K (blockAddr be)).2.kmem = K.kmem := by
  have himage' : (K.elfFileAt (blockAddr be)).elfMemory = blockAddr b := himage
  unfold elfProcessLoaded
  dsimp only
  rw [Kernel.follow_blockAddr hbe, himage', Kernel.follow_blockAddr hb]
  split <;> rfl

/-- The image of an open file is brought in before the rest of `elf_load`. -/
theorem elfLoad_image_rises (hF : F.Rises) (elfFile : Nat) :
    (elfLoad.image F K elfFile fd).2.2.kmem.Rises (elfLoad.opened F K elfFile fd).2.kmem := by
  rw [elfLoad_opened_eq]
  dsimp only
  split
  · exact elfLoad_out_rises hF _ _ _ _
  · exact (elfProcessLoaded_rises _ _).trans (elfLoad_out_rises hF _ _ _ _)

/-- `elf_load` of an open file, if its image is read without a fault and not at null. -/
theorem Scope.elfOpened_sound (hF : F.Sound owned) (hR : F.Regular) (hC : F.ClosesCarefully)
    (h : Scope owned rest K₀ K obj) (helf : obj .elfFile = some (be, ne)) (himage : obj .image = none)
    (hnull : K.imageOf (blockAddr be) = 0)
    (hread : (elfLoad.image F K (blockAddr be) fd).2.2.kmem.fault = false)
    (hne : 0 ≤ (elfLoad.image F K (blockAddr be) fd).1 →
      (elfLoad.image F K (blockAddr be) fd).2.2.imageOf (blockAddr be) ≠ 0)
    (hshort : (elfLoad.opened F K (blockAddr be) fd).2.kmem.short = false) :
    (elfLoad.opened F K (blockAddr be) fd).2.kmem.Sound := by
  have hsi : (elfLoad.image F K (blockAddr be) fd).2.2.kmem.Sound :=
    ⟨hread, (elfLoad_image_rises hF.rises _).short_eq hshort⟩
  obtain ⟨res, size, K₁, obj', he, -, h₁, hat, hobj, -⟩ :=
    h.elfImageAt hF hR helf himage hnull hsi
  rw [elfLoad_opened_eq] at hshort ⊢
  rw [he] at hshort hsi hne ⊢
  dsimp only at hshort hsi hne ⊢
  have helf' : obj' .elfFile = some (be, ne) := by
    rcases hobj with rfl | ⟨c, rfl⟩
    · exact helf
    · rw [Function.update_of_ne (by decide), helf]
  by_cases hres : res < 0
  · rw [if_pos hres] at hshort ⊢
    exact h₁.elfOut_sound hC helf' hat hsi hshort
  rw [if_neg hres] at hshort ⊢
  obtain ⟨b, hb, hptr⟩ := hat.blockAddr h₁ (hne (not_lt.1 hres))
  have hkmem := elfProcessLoaded_kmem (h₁.pos helf').2 hb hptr
  have hsl : (elfProcessLoaded K₁ (blockAddr be)).2.kmem.Sound := hkmem.symm ▸ hsi
  rcases (elfProcessLoaded_outcome hsl).2 with hrej | ⟨v, hv, hacc⟩
  · rw [hrej] at hshort ⊢
    exact h₁.elfOut_sound hC helf' hat hsi hshort
  · rw [hacc] at hshort ⊢
    dsimp only at hshort ⊢
    unfold elfLoad.out at hshort ⊢
    rw [if_neg (show ¬ allOk < 0 by decide)] at hshort ⊢
    exact hC.sound hsi hshort

/-- `elf_load`, as far as it has come when the file is opened. -/
theorem elfLoad_fopen_rises (hF : F.Rises) (K : Kernel σ) (filename : List UInt8) :
    ((elfFileNew K).2.fopen F filename).2.kmem.Rises (elfLoad F K filename).2.2.kmem := by
  unfold elfLoad
  dsimp only
  split
  · exact elfLoad_out_rises hF _ _ _ _
  · exact elfLoad_opened_rises hF _ _ _

theorem elfLoad_opened (hopen : (elfFileNew K).2.fopen F filename = (fd, K')) (hfd : 0 < fd) :
    (elfLoad F K filename).1 = (elfLoad.opened F K' (elfFileNew K).1 fd).1 ∧
      (elfLoad F K filename).2.2 = (elfLoad.opened F K' (elfFileNew K).1 fd).2 := by
  unfold elfLoad
  dsimp only
  rw [hopen]
  dsimp only
  rw [if_neg (not_le.2 hfd)]
  exact ⟨rfl, rfl⟩

/-- `elf_file_new` where a block is free. -/
theorem Scope.elfFileNew_served (h : Scope owned rest K₀ K obj) (helf : obj .elfFile = none)
    (hs : K.kmem.Sound) (hfree : (freeBlocks K.kmem.heap).Nonempty) :
    ∃ be ne K₁, elfFileNew K = (blockAddr be, K₁) ∧ be < 25600 ∧ K₁.kmem.Sound ∧
      K₁.imageOf (blockAddr be) = 0 ∧
      Scope owned rest K₀ K₁ (Function.update obj .elfFile (some (be, ne))) := by
  obtain ⟨c, hc⟩ := hfree
  obtain ⟨hclt, hcfree⟩ := mem_freeBlocks.1 hc
  rcases kzalloc_page h.tidy.kernel sizeofElfFile (by decide) (by decide) with
    ⟨be, hbe, hfree, -, he⟩ | ⟨-, hfull⟩
  · have hk : K.kzalloc sizeofElfFile =
        (blockAddr be, { K with kmem := K.kmem.take be 1 sizeofElfFile }) := by
      unfold Kernel.kzalloc
      rw [he]
    have hrun : FreeRun K.entries be 1 := fun j hj => by
      obtain rfl : j = 0 := by omega
      exact hfree
    have h₁ := h.take helf (Nat.le_refl 1) (by omega) hrun (show sizeofElfFile ≤ 4096 * 1 by decide)
    refine ⟨be, 1, _, ?_, hbe, ?_, ?_, h₁.setElfFile (Function.update_self _ _ _) {}⟩
    · unfold elfFileNew
      rw [hk]
      dsimp only
      rw [if_neg (blockAddr_ne_zero be)]
    · exact hs.quiet (.take K.kmem be 1 sizeofElfFile)
    · unfold Kernel.imageOf Kernel.setElfFile
      dsimp only
      rw [Function.update_self]
  · exact absurd hcfree (hfull c hclt)

/-- `elf_load` follows no bad pointer where the condition holds. -/
theorem Scope.elfLoad_sound (hF : F.Sound owned) (hR : F.Regular) (hC : F.ClosesCarefully)
    (h : Scope owned rest K₀ K obj) (helf : obj .elfFile = none) (himage : obj .image = none)
    (hs : K.kmem.Sound) (hserved : ElfServed F K filename)
    (hshort : (Pandora.elfLoad F K filename).2.2.kmem.short = false) :
    (Pandora.elfLoad F K filename).2.2.kmem.Sound := by
  obtain ⟨be, ne, K₁, hnew, hbe, hs₁, hnull, h₁⟩ := h.elfFileNew_served helf hs hserved.elfFile
  obtain ⟨hopened, hread, hne⟩ := hserved.fopen, hserved.fread, hserved.image
  have hrises := elfLoad_fopen_rises hF.rises K filename
  have helf₁ : Function.update obj .elfFile (some (be, ne)) .elfFile = some (be, ne) :=
    Function.update_self _ _ _
  have himage₁ : Function.update obj .elfFile (some (be, ne)) .image = none := by
    rw [Function.update_of_ne (by decide), himage]
  obtain ⟨⟨fd, K₂⟩, hopen⟩ : ∃ r, K₁.fopen F filename = r := ⟨_, rfl⟩
  have hopen₂ : (K₁.fopen F filename).2 = K₂ := by rw [hopen]
  have hopen' : (elfFileNew K).2.fopen F filename = (fd, K₂) := by rw [hnew, hopen]
  rw [hnew] at hopened hread hne hrises
  rw [hopen₂] at hopened hrises
  have hs₂ : K₂.kmem.Sound := ⟨hopened, hrises.short_eq hshort⟩
  have hnull₂ : K₂.imageOf (blockAddr be) = 0 := by
    rw [← hopen₂]
    exact hnull
  have h₂ : Scope owned rest K₀ K₂ (Function.update obj .elfFile (some (be, ne))) := by
    rw [← hopen₂] at hs₂ ⊢
    exact h₁.fopen hF filename hs₂
  by_cases hfd : fd ≤ 0
  · unfold Pandora.elfLoad at hshort ⊢
    rw [hnew] at hshort ⊢
    dsimp only at hshort ⊢
    rw [hopen] at hshort ⊢
    simp only [if_pos hfd] at hshort ⊢
    exact h₂.elfOut_sound hC helf₁ (.null himage₁ hnull₂) hs₂ hshort
  · have hres := (elfLoad_opened hopen' (not_le.1 hfd)).2
    rw [hnew] at hres
    rw [hres] at hshort ⊢
    exact h₂.elfOpened_sound hF hR hC helf₁ himage₁ hnull₂ (hread fd K₂ hopen (not_le.1 hfd))
      (hne fd K₂ hopen (not_le.1 hfd)) hshort

/-- An image that is read and at null is followed. -/
theorem elfLoad_opened_image_ne (hF : F.Rises) {elfFile : Nat}
    (hs : (elfLoad.opened F K elfFile fd).2.kmem.Sound) (hres : 0 ≤ (elfLoad.image F K elfFile fd).1) :
    (elfLoad.image F K elfFile fd).2.2.imageOf elfFile ≠ 0 := by
  rw [elfLoad_opened_eq] at hs
  dsimp only at hs
  rw [if_neg (not_lt.2 hres)] at hs
  exact (elfProcessLoaded_outcome ((elfLoad_out_rises hF _ _ _ _).sound hs)).1

/-- **`elf_load` follows no bad pointer** exactly where the condition holds. -/
theorem Scope.elfLoad_sound_iff (hF : F.Sound owned) (hR : F.Regular) (hC : F.ClosesCarefully)
    (h : Scope owned rest K₀ K obj) (helf : obj .elfFile = none) (himage : obj .image = none)
    (hs : K.kmem.Sound) (hshort : (Pandora.elfLoad F K filename).2.2.kmem.short = false) :
    (Pandora.elfLoad F K filename).2.2.kmem.Sound ↔ ElfServed F K filename := by
  refine ⟨fun hsound => ⟨?_, ?_, fun fd K' hopen hfd => ?_, fun fd K' hopen hfd hres => ?_⟩,
    fun hserved => h.elfLoad_sound hF hR hC helf himage hs hserved hshort⟩
  · by_contra hempty
    have hno : ∀ b < 25600, ¬ Free (K.kmem.heap.table.entries b) := fun b hb hf =>
      hempty ⟨b, mem_freeBlocks.2 ⟨hb, hf⟩⟩
    refine elfLoad_new_ne hF.rises hsound ?_
    rcases kzalloc_page h.tidy.kernel sizeofElfFile (by decide) (by decide) with
      ⟨b, hb, hf, -⟩ | ⟨he, -⟩
    · exact absurd hf (hno b hb)
    · unfold elfFileNew Kernel.kzalloc
      rw [he]
      rfl
  · exact ((elfLoad_fopen_rises hF.rises K filename).sound hsound).fault
  · rw [(elfLoad_opened hopen hfd).2] at hsound
    exact ((elfLoad_image_rises hF.rises _).sound hsound).fault
  · rw [(elfLoad_opened hopen hfd).2] at hsound
    exact elfLoad_opened_image_ne hF.rises hsound hres

end

/-! ## Raw binary files -/

section

variable {σ : Type} {F : FileLayer σ} {owned : σ → Nat → Prop} {rest : Nat → Prop}
  {K₀ K K₁ K₂ : Kernel σ} {obj : Role → Option (Nat × Nat)} {filename : List UInt8} {fd : Int}
  {process size ptr : Nat}

/-- From the label `out` of `process_load_binary` on. -/
theorem binaryOut_sound (hC : F.ClosesCarefully) (hs : K.kmem.Sound)
    (hptr : ptr = 0 ∨ ∃ b < 25600, ptr = blockAddr b) {res : Int}
    (hshort : (processLoadBinary.out F K ptr fd res).2.kmem.short = false) :
    (processLoadBinary.out F K ptr fd res).2.kmem.Sound := by
  unfold processLoadBinary.out at hshort ⊢
  by_cases hfree : res < 0 ∧ ptr ≠ 0
  · rw [if_pos hfree] at hshort ⊢
    obtain ⟨b, hb, rfl⟩ := hptr.resolve_left hfree.2
    exact hC.sound (hs.quiet (kfree_quiet hb K.kmem)) hshort
  · rw [if_neg hfree] at hshort ⊢
    exact hC.sound hs hshort

/-- The calls of `process_load_binary` on an open file, up to the read. -/
theorem processLoadBinary_opened_eq (hstat : K.fstat F fd = (allOk, size))
    (hz : K.kzalloc size = (ptr, K₁)) (hptr : ptr ≠ 0) (process : Nat) :
    ∃ L : Kernel σ, ∃ res, L.kmem = (K₁.fread F ptr size 1 fd).2.kmem ∧
      processLoadBinary.opened F K process fd = processLoadBinary.out F L ptr fd res := by
  unfold processLoadBinary.opened
  rw [hstat]
  dsimp only
  rw [if_neg (not_not_intro rfl), hz]
  dsimp only
  rw [if_neg hptr]
  split
  · exact ⟨_, _, rfl, rfl⟩
  · exact ⟨(K₁.fread F ptr size 1 fd).2.setProcess process _, allOk, rfl, rfl⟩

/-- `process_load_binary` of an open file. -/
theorem Scope.binaryOpened_sound (hF : F.Sound owned) (hR : F.Regular) (hC : F.ClosesCarefully)
    (h : Scope owned rest K₀ K obj) (himage : obj .image = none) (hs : K.kmem.Sound)
    (hread : ∀ size ptr K₁, K.fstat F fd = (allOk, size) → K.kzalloc size = (ptr, K₁) → ptr ≠ 0 →
      (K₁.fread F ptr size 1 fd).2.kmem.fault = false)
    (hshort : (processLoadBinary.opened F K process fd).2.kmem.short = false) :
    (processLoadBinary.opened F K process fd).2.kmem.Sound := by
  obtain ⟨⟨st, size⟩, hstat⟩ : ∃ r, K.fstat F fd = r := ⟨_, rfl⟩
  by_cases hst : st ≠ allOk
  · unfold processLoadBinary.opened at hshort ⊢
    rw [hstat] at hshort ⊢
    dsimp only at hshort ⊢
    rw [if_pos hst] at hshort ⊢
    exact binaryOut_sound hC hs (.inl rfl) hshort
  obtain rfl : st = allOk := not_not.1 hst
  obtain ⟨⟨ptr, K₁⟩, hz⟩ : ∃ r, K.kzalloc size = r := ⟨_, rfl⟩
  have hk₁ : (Pandora.kzalloc K.kmem size).2 = K₁.kmem := congrArg (fun r => r.2.kmem) hz
  have hfault₁ : K₁.kmem.fault = false := by
    rw [← hk₁, kzalloc_fault]
    exact hs.fault
  have hsize : size < 2 ^ 32 := by
    have hlt := hR.size_lt fd K.files K.kmem
    unfold Kernel.fstat at hstat
    rwa [hstat] at hlt
  by_cases hptr : ptr = 0
  · -- no memory for the file
    have heq : processLoadBinary.opened F K process fd =
        processLoadBinary.out F K₁ 0 fd (-enomem) := by
      unfold processLoadBinary.opened
      rw [hstat]
      dsimp only
      rw [if_neg (not_not_intro rfl), hz]
      dsimp only
      rw [if_pos hptr]
    rw [heq] at hshort ⊢
    have hr := processLoadBinary_out_rises hF.rises K₁ 0 fd (-enomem)
    exact binaryOut_sound hC ⟨hfault₁, hr.short_eq hshort⟩ (.inl rfl) hshort
  obtain ⟨L, res, hL, heq⟩ := processLoadBinary_opened_eq hstat hz hptr process
  rw [heq] at hshort ⊢
  have hr := processLoadBinary_out_rises hF.rises L ptr fd res
  have hsL : L.kmem.Sound := ⟨by rw [hL]; exact hread size ptr K₁ hstat hz hptr, hr.short_eq hshort⟩
  have hs₁ : K₁.kmem.Sound := by
    rw [hL] at hsL
    exact (K₁.fread_rises hF.rises ptr size 1 fd).sound hsL
  refine binaryOut_sound hC hsL (.inr ?_) hshort
  have hs₁' : (K.kzalloc size).2.kmem.Sound := by
    rw [hz]
    exact hs₁
  obtain ⟨obj', hans, -⟩ := h.answered himage hsize hs₁'
  rw [hz] at hans
  cases hans with
  | denied hp => exact absurd hp hptr
  | empty b _ hp hb _ => exact ⟨b, hb, hp⟩
  | taken b n hp hb _ => exact ⟨b, hb, hp⟩

/-- **`process_load_binary` follows no bad pointer** but those that the file layer may follow. -/
theorem Scope.processLoadBinary_sound_iff (hF : F.Sound owned) (hR : F.Regular) (hC : F.ClosesCarefully)
    (h : Scope owned rest K₀ K obj) (himage : obj .image = none)
    (hshort : (Pandora.processLoadBinary F K filename process).2.kmem.short = false) :
    (Pandora.processLoadBinary F K filename process).2.kmem.Sound ↔ BinaryServed F K filename := by
  obtain ⟨⟨fd, K₁⟩, hopen⟩ : ∃ r, K.fopen F filename = r := ⟨_, rfl⟩
  have hopen₁ : (K.fopen F filename).2 = K₁ := by rw [hopen]
  have heq : Pandora.processLoadBinary F K filename process =
      if fd = 0 then processLoadBinary.out F K₁ 0 0 (-eio)
      else processLoadBinary.opened F K₁ process fd := by
    unfold Pandora.processLoadBinary
    rw [hopen]
  have hrises : K₁.kmem.Rises (Pandora.processLoadBinary F K filename process).2.kmem := by
    rw [heq]
    split
    · exact processLoadBinary_out_rises hF.rises _ _ _ _
    · exact processLoadBinary_opened_rises hF.rises _ _ _
  constructor
  · intro hsound
    refine ⟨hopen₁ ▸ (hrises.sound hsound).fault, fun fd' K₁' size ptr K₂ hopen' hfd hstat hz hptr => ?_⟩
    rw [hopen, Prod.mk.injEq] at hopen'
    obtain ⟨rfl, rfl⟩ := hopen'
    obtain ⟨L, res, hL, hout⟩ := processLoadBinary_opened_eq hstat hz hptr process
    rw [heq, if_neg hfd, hout] at hsound
    rw [← hL]
    exact ((processLoadBinary_out_rises hF.rises _ _ _ _).sound hsound).fault
  · intro hserved
    have hs₁ : K₁.kmem.Sound := ⟨hopen₁ ▸ hserved.fopen, hrises.short_eq hshort⟩
    have h₁ : Scope owned rest K₀ K₁ obj := by
      rw [← hopen₁] at hs₁ ⊢
      exact h.fopen hF filename hs₁
    rw [heq] at hshort ⊢
    by_cases hfd : fd = 0
    · rw [if_pos hfd] at hshort ⊢
      exact binaryOut_sound hC hs₁ (.inl rfl) hshort
    · rw [if_neg hfd] at hshort ⊢
      exact h₁.binaryOpened_sound hF hR hC himage hs₁
        (fun size ptr K₂ hstat hz hptr => hserved.fread fd K₁ size ptr K₂ hopen hfd hstat hz hptr) hshort

/-! ## The data of a process -/

theorem processLoadData_eq (F : FileLayer σ) (K : Kernel σ) (filename : List UInt8) (process : Nat) :
    ((elfLoad F K filename).1 = -einformat ∧ processLoadData F K filename process =
      processLoadBinary F (elfLoad F K filename).2.2 filename process) ∨
    ((elfLoad F K filename).1 ≠ -einformat ∧
      (processLoadData F K filename process).2.kmem = (elfLoad F K filename).2.2.kmem) := by
  unfold processLoadData processLoadElf
  obtain ⟨⟨res, elfFile, K₁⟩, he⟩ : ∃ r, elfLoad F K filename = r := ⟨_, rfl⟩
  rw [he]
  dsimp only
  by_cases hres : res < 0
  · rw [if_pos hres]
    dsimp only
    by_cases hformat : res = -einformat
    · exact .inl ⟨hformat, by rw [if_pos hformat]⟩
    · exact .inr ⟨hformat, by rw [if_neg hformat]⟩
  · have hformat : res ≠ -einformat := fun he => hres (he ▸ by decide)
    rw [if_neg hres]
    dsimp only
    exact .inr ⟨hformat, by rw [if_neg hformat]; rfl⟩

/-- **`process_load_data` follows no bad pointer** exactly where the condition holds. -/
theorem Scope.processLoadData_sound_iff (hF : F.Sound owned) (hR : F.Regular) (hC : F.ClosesCarefully)
    (h : Scope owned rest K₀ K obj) (helf : obj .elfFile = none) (himage : obj .image = none)
    (hs : K.kmem.Sound)
    (hshort : (Pandora.processLoadData F K filename process).2.kmem.short = false) :
    (Pandora.processLoadData F K filename process).2.kmem.Sound ↔ DataServed F K filename := by
  rcases processLoadData_eq F K filename process with ⟨hformat, heq⟩ | ⟨hformat, hkmem⟩
  · -- as a raw binary, from the kernel that `elf_load` has left
    rw [heq] at hshort ⊢
    have hrises := processLoadBinary_rises hF.rises (Pandora.elfLoad F K filename).2.2 filename process
    have hiff := h.elfLoad_sound_iff hF hR hC helf himage hs (hrises.short_eq hshort)
    have hscope : (Pandora.elfLoad F K filename).2.2.kmem.Sound →
        Scope owned rest K₀ (Pandora.elfLoad F K filename).2.2 obj := fun hse => by
      obtain ⟨res, elfFile, K', he, -, hcases⟩ := h.elfLoad hF hR helf himage hse
      rw [he] at hformat ⊢
      rcases hcases with ⟨be, ne, bi, ni, hres, -⟩ | ⟨-, h'⟩
      · rw [hres] at hformat
        cases hformat
      · exact h'
    constructor
    · intro hsound
      have hse := hrises.sound hsound
      exact ⟨hiff.1 hse, fun _ =>
        ((hscope hse).processLoadBinary_sound_iff hF hR hC himage hshort).1 hsound⟩
    · intro hserved
      exact ((hscope (hiff.2 hserved.elf)).processLoadBinary_sound_iff hF hR hC himage hshort).2
        (hserved.binary hformat)
  · rw [hkmem] at hshort ⊢
    refine (h.elfLoad_sound_iff hF hR hC helf himage hs hshort).trans ⟨fun hserved =>
      ⟨hserved, fun he => absurd he hformat⟩, DataServed.elf⟩

end

/-! ## Tasks -/

section

variable {σ : Type} {owned : σ → Nat → Prop} {rest : Nat → Prop} {K₀ K : Kernel σ}
  {obj : Role → Option (Nat × Nat)} {process bp np task chunk : Nat} {k k' : Kmem}

/-- A new page directory takes 1026 free blocks. -/
theorem NewPaging.le_freeBlocks {flags dir : Nat} {table : Nat → Nat}
    (h : NewPaging k k' flags chunk dir table) : 1026 ≤ (freeBlocks k.heap).card := by
  have ht := h.tookBlocks
  have hsub : (directoryBlocks chunk dir table).toFinset ⊆ freeBlocks k.heap := fun b hb => by
    obtain ⟨hlt, hf, -⟩ := (ht.taken b).1 (List.mem_toFinset.1 hb)
    exact mem_freeBlocks.2 ⟨hlt, hf⟩
  have hcard := Finset.card_le_card hsub
  rwa [List.toFinset_card_of_nodup ht.nodup, ht.count] at hcard

/-- `task_init` of a process with its program, where the page directory is not null. -/
theorem Scope.taskInit_served (h : Scope owned rest K₀ K obj) (hprocess : process = blockAddr bp)
    (hbp : obj .process = some (bp, np)) (hprogram : ProgramAt K obj process) (task : Nat)
    (hp : pagingNew4gb K.kmem (pagingIsPresent ||| pagingAccessFromAll) = (chunk, k')) (hc : chunk ≠ 0) :
    ∃ v, taskInit K task process = (allOk, Kernel.setTask { K with kmem := k' } task v) := by
  obtain ⟨K₁, hK₁⟩ : ∃ K₁, { K with kmem := k' } = K₁ := ⟨_, rfl⟩
  have hproc₁ : K₁.processAt = K.processAt := by rw [← hK₁]
  have helf₁ : K₁.elfFileAt = K.elfFileAt := by rw [← hK₁]
  unfold taskInit
  rw [hp]
  dsimp only
  rw [if_neg hc, hK₁, hprocess, Kernel.follow_blockAddr (h.pos hbp).2, hproc₁, ← hprocess]
  cases hprogram with
  | elf be ne bi ni hft hptr helf himage hi =>
    have himage' : (K.elfFileAt (blockAddr be)).elfMemory = blockAddr bi := himage
    rw [hft]
    dsimp only
    rw [hptr, Kernel.follow_blockAddr (h.pos helf).2, helf₁, himage',
      Kernel.follow_blockAddr (h.pos hi).2]
    exact ⟨_, rfl⟩
  | binary bi ni hft hptr _ helf hi =>
    rw [hft]
    exact ⟨_, rfl⟩

/-- **`task_new` follows no bad pointer** exactly where 1027 blocks are free. -/
theorem Scope.taskNew_sound_iff (h : Scope owned rest K₀ K obj) (hprocess : process = blockAddr bp)
    (hbp : obj .process = some (bp, np)) (hnone : Untasked obj) (hprogram : ProgramAt K obj process)
    (htail : K.queue.head ≠ 0 → ∃ b < 25600, K.queue.tail = blockAddr b) (hs : K.kmem.Sound) :
    (Pandora.taskNew K process).2.kmem.Sound ↔ 1027 ≤ (freeBlocks K.kmem.heap).card := by
  have hflags : pagingIsPresent ||| pagingAccessFromAll < 4096 := by decide
  rcases kzalloc_page h.tidy.kernel sizeofTask (by decide) (by decide) with
    ⟨t, ht, hfree, -, he⟩ | ⟨he, hfull⟩
  · obtain ⟨K₁, hK₁⟩ : ∃ K₁, { K with kmem := K.kmem.take t 1 sizeofTask } = K₁ := ⟨_, rfl⟩
    have hz : K.kzalloc sizeofTask = (blockAddr t, K₁) := by
      unfold Kernel.kzalloc
      rw [he, ← hK₁]
    have hkmem₁ : K₁.kmem = K.kmem.take t 1 sizeofTask := by rw [← hK₁]
    have hrun : FreeRun K.entries t 1 := fun j hj => by
      obtain rfl : j = 0 := by omega
      exact hfree
    have h₁ := h.take hnone.task (Nat.le_refl 1) (by omega) hrun
      (show sizeofTask ≤ 4096 * 1 by decide)
    rw [hK₁] at h₁
    have hcard : (freeBlocks K₁.kmem.heap).card + 1 = (freeBlocks K.kmem.heap).card := by
      rw [hkmem₁, take_heap, freeBlocks_markBlocksTaken ht]
      exact Finset.card_erase_add_one (mem_freeBlocks.2 ⟨ht, hfree⟩)
    have heq : Pandora.taskNew K process = if (taskInit K₁ (blockAddr t) process).1 < 0 then
        (Word.ofInt (taskInit K₁ (blockAddr t) process).1,
          taskFree (taskInit K₁ (blockAddr t) process).2 (blockAddr t))
        else
          let L := if (taskInit K₁ (blockAddr t) process).2.queue.head = 0 then
              (taskInit K₁ (blockAddr t) process).2
            else (taskInit K₁ (blockAddr t) process).2.follow
              (taskInit K₁ (blockAddr t) process).2.queue.tail
          (blockAddr t, { L with queue := taskLink L.queue (blockAddr t) }) := by
      unfold Pandora.taskNew
      rw [hz]
      dsimp only
      rw [if_neg (blockAddr_ne_zero t)]
    rw [heq]
    constructor
    · intro hsound
      have hs₂ : (taskInit K₁ (blockAddr t) process).2.kmem.Sound := by
        refine Kmem.Rises.sound ?_ hsound
        split
        · exact taskFree_rises _ _
        · dsimp only
          split
          · exact .refl _
          · exact Kernel.follow_rises _ _
      obtain ⟨K', k', v, dir, table, -, -, hp⟩ := taskInit_sound h₁.tidy.kernel hs₂
      have := hp.le_freeBlocks
      omega
    · intro hroom
      rcases pagingNew4gb_cases h₁.tidy.kernel hflags with ⟨chunk, k', dir, table, hpe, hp⟩ | ⟨hlt, -⟩
      · have hc : chunk ≠ 0 := by
          have := hp.chunkWindow.lo
          omega
        have hprogram₁ : ProgramAt K₁ (Function.update obj .task (some (t, 1))) process :=
          hprogram.congr (by rw [← hK₁]) (by rw [← hK₁]) (by rw [← hK₁]) (by rw [← hK₁]; rfl)
            (by rintro r (rfl | rfl) <;> rfl)
        obtain ⟨v, hinit⟩ := h₁.taskInit_served hprocess
          ((Function.update_of_ne (by decide) _ _).trans hbp) hprogram₁ (blockAddr t) hpe hc
        have hs' : k'.Sound := by
          refine Kmem.Sound.quiet ?_ hp.quiet
          rw [hkmem₁]
          exact hs.quiet (.take K.kmem t 1 sizeofTask)
        rw [hinit, if_neg (show ¬ allOk < 0 by decide)]
        dsimp only
        split
        · exact hs'
        · rename_i hhead
          have hqueue : (Kernel.setTask { K₁ with kmem := k' } (blockAddr t) v).queue =
              K.queue.set (blockAddr t) v := by rw [← hK₁]; rfl
          rw [hqueue] at hhead ⊢
          obtain ⟨b, hb, htl⟩ := htail hhead
          have htl' : (K.queue.set (blockAddr t) v).tail = blockAddr b := htl
          rw [htl', Kernel.follow_blockAddr hb]
          exact hs'
      · omega
  · refine iff_of_false (fun hsound => taskNew_kzalloc_ne hsound ?_) fun hroom => ?_
    · unfold Kernel.kzalloc
      rw [he]
    · have hempty : (freeBlocks K.kmem.heap).card = 0 := Finset.card_eq_zero.2
        (Finset.eq_empty_of_forall_notMem fun b hb => hfull b (mem_freeBlocks.1 hb).1
          (mem_freeBlocks.1 hb).2)
      omega

end

end Pandora
