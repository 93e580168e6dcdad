import Pandora.Process.Image
import Pandora.Process.Malloc

/-!
# The program of a process

`elf_load` and `process_load_binary` bring a file into memory, whatever it holds: the blocks that they
take join the scope, or the scope is as it was (`Scope.elfLoad`, `Scope.processLoadBinary`). A file of
no bytes gets a pointer to a block that stays free (`Answered`). `ProgramAt K obj process`: the process
points to its program, and the blocks of the program are in scope.
-/

namespace Pandora

open ByteMem

/-! ## Allocations of no bytes -/

section

variable {k : Kmem} {b : Nat}

/-- A request for nothing is answered with a block that stays free. -/
theorem kzalloc_zero (hk : k.heap.Kernel) :
    (kzalloc k 0 = (0, k.deny) ∧ ¬ Free (k.heap.table.entries 25599)) ∨
      ∃ b < 25600, Free (k.heap.table.entries b) ∧ kzalloc k 0 = (blockAddr b, k.take b 0 0) := by
  have hn : heapAlignValueToUpper 0 / 4096 = 0 := by decide
  have hm := heapMallocBlocks_spec k.heap 0
  have htotal := hk.total
  obtain ⟨r, hr⟩ : ∃ r, heapMallocBlocks k.heap 0 = r := ⟨_, rfl⟩
  rw [hr] at hm
  cases hm with
  | found b hpos _ _ => exact absurd hpos (by decide)
  | short b hb htail =>
    rw [htotal] at hb htail
    exact .inr ⟨b, hb, htail 0 (by omega), kzalloc_of_found hk hn (by decide) (by omega) hb hr⟩
  | none hlast =>
    rw [htotal] at hlast
    refine .inl ⟨kzalloc_of_none ?_, hlast.resolve_left (by decide)⟩
    unfold heapMalloc
    rw [hn, hr]

/-- Freeing a free block. -/
theorem kfree_free_entries (hk : k.heap.Kernel) (hb : b < 25600)
    (hf : k.heap.table.entries b = entryFree) (j : Nat) :
    (kfree k (blockAddr b)).heap.table.entries j = k.heap.table.entries j := by
  rw [kfree_entries hk, freedBlock_blockAddr hb, show 25600 - b = (25600 - b - 1) + 1 by omega]
  unfold heapMarkBlocksFree.loop
  dsimp only
  rw [if_pos (by rw [hf]; decide), HeapTable.set_entries]
  split
  · rename_i hj
    rw [hj, hf]
  · rfl

end

section

variable {σ ι : Type} {owned : σ → Nat → Prop} {rest : Nat → Prop} {K₀ K K' : Kernel σ}
  {obj : ι → Option (Nat × Nat)} {b : Nat}

/-- A change of contents, where the entries stay as they are. -/
theorem Scope.sameEntries (h : Scope owned rest K₀ K obj) (hkernel : K'.kmem.heap.Kernel)
    (he : K'.entries = K.entries) (hfiles : K'.files = K.files)
    (hrest : ∀ b, rest b → SameBlock K.mem K'.mem b ∧ SameStructs K K' b) :
    Scope owned rest K₀ K' obj := by
  have hentry : ∀ j, K'.kmem.heap.table.entries j = K.kmem.heap.table.entries j :=
    fun j => congrFun he j
  refine ⟨⟨hkernel, fun j hj hf => ?_, fun j hj => ?_⟩, by rw [he]; exact h.chain, h.inj,
    by rw [hfiles]; exact h.apart, by rw [he, hfiles]; exact h.taken, fun b hb => ?_,
    by rw [he, hfiles]; exact h.cover⟩
  · rw [hentry] at hf ⊢
    exact h.tidy.clean j hj hf
  · rw [hfiles] at hj
    rw [hentry]
    exact h.tidy.owned j hj
  · obtain ⟨h1, h2, h3⟩ := h.same b hb
    obtain ⟨h4, h5⟩ := hrest b hb
    exact ⟨by rw [he, h1], h2.trans h4, h3.trans h5⟩

/-- A pointer to nothing is freed. -/
theorem Scope.kfree_free (h : Scope owned rest K₀ K obj) (hb : b < 25600) (hf : Free (K.entries b)) :
    Scope owned rest K₀ (K.kfree (blockAddr b)) obj := by
  have hk := h.tidy.kernel
  refine h.sameEntries (hk.kfree _) ?_ rfl fun j _ => ⟨fun x _ _ => ?_, ⟨rfl, rfl, rfl⟩⟩
  · funext j
    exact kfree_free_entries hk hb (h.tidy.clean b hb hf) j
  · exact congrFun (follow_mem _ _) x

end

section

variable {σ ι : Type} [DecidableEq ι] {owned : σ → Nat → Prop} {rest : Nat → Prop}
  {K₀ K : Kernel σ} {obj : ι → Option (Nat × Nat)} {i : ι} {size : Nat}

/-- The outcomes of a request of any size that did not run short: a null pointer, for no bytes a
pointer to a block that stays free, or an allocation for `i`. -/
inductive Answered (K : Kernel σ) (obj : ι → Option (Nat × Nat)) (i : ι) (size ptr : Nat) :
    (ι → Option (Nat × Nat)) → Prop where
  | denied : ptr = 0 → Answered K obj i size ptr obj
  | empty (b : Nat) : size = 0 → ptr = blockAddr b → b < 25600 → Free (K.entries b) →
      Answered K obj i size ptr obj
  | taken (b n : Nat) : ptr = blockAddr b → b < 25600 → size ≤ 4096 * n →
      Answered K obj i size ptr (Function.update obj i (some (b, n)))

theorem Scope.answered (h : Scope owned rest K₀ K obj) (hi : obj i = none) (hsize : size < 2 ^ 32)
    (hs : (K.kzalloc size).2.kmem.Sound) :
    ∃ obj', Answered (K.kzalloc size).2 obj i size (K.kzalloc size).1 obj' ∧
      Scope owned rest K₀ (K.kzalloc size).2 obj' := by
  rcases Nat.eq_zero_or_pos size with rfl | hpos
  · have hz : K.kzalloc 0 = ((Pandora.kzalloc K.kmem 0).1,
        { K with kmem := (Pandora.kzalloc K.kmem 0).2 }) := rfl
    rcases kzalloc_zero h.tidy.kernel with ⟨he, -⟩ | ⟨b, hb, hf, he⟩
    · rw [hz, he]
      exact ⟨obj, .denied rfl, h.update rfl rfl fun b _ => ⟨.refl _ b, ⟨rfl, rfl, rfl⟩⟩⟩
    · have hheap : (K.kmem.take b 0 0).heap = K.kmem.heap := by
        rw [take_heap, markBlocksTaken_zero (by omega)]
      rw [hz, he]
      refine ⟨obj, .empty b rfl rfl hb ?_, h.update hheap rfl fun j _ => ⟨fun x _ _ => ?_,
        ⟨rfl, rfl, rfl⟩⟩⟩
      · unfold Kernel.entries
        rw [hheap]
        exact hf
      · change (K.kmem.take b 0 0).mem x = K.mem x
        rw [take_mem]
        exact if_neg (Nat.not_lt_zero _)
  · rcases h.kzalloc hi hpos hsize hs with ⟨he, h'⟩ | ⟨b, n, hb, -, hle, he, h'⟩
    · rw [he]
      exact ⟨obj, .denied rfl, h'⟩
    · rw [he]
      exact ⟨_, .taken b n rfl hb hle, h'⟩

end

/-- What `fstat` and `fread` answer: a status, a size that is a word, and an error for a read of
nothing, which does nothing. -/
structure FileLayer.Regular {σ : Type} (F : FileLayer σ) : Prop where
  fstat_le : ∀ fd s k, (F.fstat fd s k).1 ≤ 0
  size_lt : ∀ fd s k, (F.fstat fd s k).2 < 2 ^ 32
  fread_zero : ∀ ptr nmemb fd s k, ∃ res < 0, F.fread ptr 0 nmemb fd s k = (res, s, k)

/-! ## ELF files -/

section

variable {σ : Type} {F : FileLayer σ} {owned : σ → Nat → Prop} {rest : Nat → Prop}
  {K₀ K K' : Kernel σ} {obj : Role → Option (Nat × Nat)} {filename : List UInt8} {fd : Int}
  {be ne bi ni : Nat}

theorem update_none {ι : Type} [DecidableEq ι] {obj : ι → Option (Nat × Nat)} {i : ι}
    (h : obj i = none) (c : Option (Nat × Nat)) :
    Function.update (Function.update obj i c) i none = obj := by
  rw [Function.update_idem, ← h, Function.update_eq_self]

/-- Where the image of an open ELF file is: in scope, nowhere, or, for a file of no bytes, in a block
that is free. -/
inductive ImageAt (K : Kernel σ) (obj : Role → Option (Nat × Nat)) (elfFile : Nat) : Prop where
  | image (bi ni : Nat) : obj .image = some (bi, ni) → K.imageOf elfFile = blockAddr bi →
      ImageAt K obj elfFile
  | null : obj .image = none → K.imageOf elfFile = 0 → ImageAt K obj elfFile
  | empty (b : Nat) : obj .image = none → K.imageOf elfFile = blockAddr b → b < 25600 →
      Free (K.entries b) → ImageAt K obj elfFile

/-- `elf_file_free` takes the file and its image out of scope. -/
theorem Scope.elfFileFree (h : Scope owned rest K₀ K obj) (helf : obj .elfFile = some (be, ne))
    (hat : ImageAt K obj (blockAddr be)) :
    Scope owned rest K₀ (elfFileFree K (blockAddr be))
      (Function.update (Function.update obj .image none) .elfFile none) := by
  have hbe := (h.pos helf).2
  have hfollow : K.follow (blockAddr be) = K := by
    unfold Kernel.follow
    rw [follow_blockAddr hbe]
  unfold Pandora.elfFileFree
  dsimp only
  rw [hfollow]
  have helf' : ∀ c, Function.update obj .image c .elfFile = some (be, ne) := fun c => by
    rw [Function.update_of_ne (by decide), helf]
  have hnone : obj .image = none → Function.update obj .image none = obj := fun hn => by
    rw [← hn, Function.update_eq_self]
  cases hat with
  | image bi ni himage hptr =>
    have hptr' : (K.elfFileAt (blockAddr be)).elfMemory = blockAddr bi := hptr
    rw [hptr', if_pos (blockAddr_ne_zero bi)]
    exact (h.kfree himage).kfree (helf' none)
  | null hn hptr =>
    have hptr' : (K.elfFileAt (blockAddr be)).elfMemory = 0 := hptr
    rw [hptr', if_neg (not_not_intro rfl), hnone hn]
    exact h.kfree helf
  | empty b hn hptr hb hf =>
    have hptr' : (K.elfFileAt (blockAddr be)).elfMemory = blockAddr b := hptr
    rw [hptr', if_pos (blockAddr_ne_zero b), hnone hn]
    exact (h.kfree_free hb hf).kfree helf

/-- The outcome of a call that loads into the scope: the family `obj'`, or a failure with `obj`. -/
theorem Scope.elfOut (hF : F.Sound owned) (h : Scope owned rest K₀ K obj)
    (helf : obj .elfFile = some (be, ne)) (hat : ImageAt K obj (blockAddr be)) {res : Int}
    (hres : res < 0) (hs : (elfLoad.out F K (blockAddr be) fd res).2.kmem.Sound) :
    (elfLoad.out F K (blockAddr be) fd res).1 < 0 ∧
      K.FileOnly (elfLoad.out F K (blockAddr be) fd res).2 ∧
      Scope owned rest K₀ (elfLoad.out F K (blockAddr be) fd res).2
        (Function.update (Function.update obj .image none) .elfFile none) := by
  unfold elfLoad.out at hs ⊢
  rw [if_pos hres] at hs ⊢
  refine ⟨hres, ?_, (h.elfFileFree helf hat).fclose hF fd hs⟩
  unfold Pandora.elfFileFree
  dsimp only
  split <;> rfl

/-- `elf_load` up to the image. -/
theorem Scope.elfImageAt (hF : F.Sound owned) (hR : F.Regular) (h : Scope owned rest K₀ K obj)
    (helf : obj .elfFile = some (be, ne)) (himage : obj .image = none)
    (hnull : K.imageOf (blockAddr be) = 0)
    (hs : (elfLoad.image F K (blockAddr be) fd).2.2.kmem.Sound) :
    ∃ res size K' obj', elfLoad.image F K (blockAddr be) fd = (res, size, K') ∧ K.FileOnly K' ∧
      Scope owned rest K₀ K' obj' ∧ ImageAt K' obj' (blockAddr be) ∧
      (obj' = obj ∨ ∃ c, obj' = Function.update obj .image c) ∧
      (0 ≤ res → K'.imageOf (blockAddr be) ≠ 0 → obj' .image ≠ none) := by
  have hbe := (h.pos helf).2
  unfold elfLoad.image at hs ⊢
  obtain ⟨⟨st, filesize⟩, hstat⟩ : ∃ r, K.fstat F fd = r := ⟨_, rfl⟩
  rw [hstat] at hs ⊢
  dsimp only at hs ⊢
  by_cases hst : st < 0
  · rw [if_pos hst]
    exact ⟨st, filesize, K, obj, rfl, rfl, h, .null himage hnull, .inl rfl, fun hn => absurd hn
      (not_le.2 hst)⟩
  rw [if_neg hst] at hs ⊢
  have hsize : filesize < 2 ^ 32 := by
    have := hR.size_lt fd K.files K.kmem
    unfold Kernel.fstat at hstat
    rwa [hstat] at this
  have hz : (K.kzalloc filesize).2.kmem.Sound := by
    refine Kmem.Rises.sound ?_ hs
    exact (Kernel.follow_rises _ _).trans (Kernel.fread_rises hF.rises _ _ _ _ _)
  obtain ⟨obj', hans, h₁⟩ := h.answered himage hsize hz
  have honly₁ : K.FileOnly (K.kzalloc filesize).2 := rfl
  obtain ⟨⟨ptr, K₁⟩, hk⟩ : ∃ r, K.kzalloc filesize = r := ⟨_, rfl⟩
  rw [hk] at hs hans h₁ honly₁ ⊢
  dsimp only at hs hans h₁ honly₁ ⊢
  have hfollow : K₁.follow (blockAddr be) = K₁ := by
    unfold Kernel.follow
    rw [follow_blockAddr hbe]
  rw [hfollow] at hs ⊢
  -- the pointer to the image
  have helf' : obj' .elfFile = some (be, ne) := by
    cases hans with
    | denied _ => exact helf
    | empty _ _ _ _ _ => exact helf
    | taken b n _ _ _ => rw [Function.update_of_ne (by decide), helf]
  obtain ⟨K₂, hK₂⟩ : ∃ K₂, K₁.setElfFile (blockAddr be)
    { K₁.elfFileAt (blockAddr be) with elfMemory := ptr } = K₂ := ⟨_, rfl⟩
  have h₂ : Scope owned rest K₀ K₂ obj' := by
    rw [← hK₂]
    exact h₁.setElfFile helf' _
  have honly₂ : K.FileOnly K₂ := by
    refine honly₁.trans ?_
    rw [← hK₂]
    rfl
  have hptr₂ : K₂.imageOf (blockAddr be) = ptr := by
    rw [← hK₂]
    unfold Kernel.imageOf Kernel.setElfFile
    dsimp only
    rw [Function.update_self]
  have hentries₂ : K₂.entries = K₁.entries := by rw [← hK₂]; rfl
  rw [hK₂] at hs ⊢
  obtain ⟨⟨res, K₃⟩, hread⟩ : ∃ r, K₂.fread F ptr filesize 1 fd = r := ⟨_, rfl⟩
  have honly₃ : K.FileOnly K₃ := by
    refine honly₂.trans ?_
    have : (K₂.fread F ptr filesize 1 fd).2 = K₃ := by rw [hread]
    rw [← this]
    rfl
  have hptr₃ : K₃.imageOf (blockAddr be) = ptr := by
    have : (K₂.fread F ptr filesize 1 fd).2 = K₃ := by rw [hread]
    rw [← this, ← hptr₂]
    rfl
  rw [hread] at hs ⊢
  dsimp only at hs ⊢
  -- the bytes go into the image, or nowhere
  have hscope : (ptr = 0 ∨ ∃ i b n, obj' i = some (b, n) ∧ ptr = blockAddr b ∧
      filesize * 1 ≤ 4096 * n) → Scope owned rest K₀ K₃ obj' := fun hptr => by
    have hread₃ : (K₂.fread F ptr filesize 1 fd).2 = K₃ := by rw [hread]
    rw [← hread₃] at hs ⊢
    exact h₂.fread hF hptr hs
  cases hans with
  | denied hp =>
    exact ⟨res, filesize, K₃, obj, rfl, honly₃, hscope (.inl hp), .null himage (hptr₃.trans hp),
      .inl rfl, fun _ hne => absurd (hptr₃.trans hp) hne⟩
  | empty b hzero hp hb hf =>
    obtain ⟨res', hneg, hread'⟩ := hR.fread_zero ptr 1 fd K₂.files K₂.kmem
    have hres : (res, K₃) = (res', K₂) := by
      rw [← hread, hzero]
      unfold Kernel.fread
      rw [hread']
    obtain ⟨rfl, rfl⟩ := Prod.mk.inj hres
    exact ⟨res, filesize, K₃, obj, rfl, honly₃, h₂, .empty b himage (hptr₃.trans hp) hb
      (by rw [hentries₂]; exact hf), .inl rfl, fun hn => absurd hn (not_le.2 hneg)⟩
  | taken b n hp hb hle =>
    have hself : Function.update obj .image (some (b, n)) .image = some (b, n) :=
      Function.update_self _ _ _
    refine ⟨res, filesize, K₃, _, rfl, honly₃, hscope (.inr ⟨.image, b, n, hself, hp, by omega⟩),
      .image b n hself (hptr₃.trans hp), .inr ⟨_, rfl⟩, fun _ _ => ?_⟩
    rw [hself]
    exact Option.some_ne_none _

/-- `elf_process_loaded` without a fault: the file is rejected, or its addresses are noted. -/
theorem elfProcessLoaded_outcome {elfFile : Nat} (hs : (elfProcessLoaded K elfFile).2.kmem.Sound) :
    K.imageOf elfFile ≠ 0 ∧ (elfProcessLoaded K elfFile = (-einformat, K) ∨
      ∃ v, v.elfMemory = K.imageOf elfFile ∧
        elfProcessLoaded K elfFile = (allOk, K.setElfFile elfFile v)) := by
  have hs₂ := (elfProcessLoaded_follow_rises K elfFile).sound hs
  have hs₁ := (Kernel.follow_rises _ _).sound hs₂
  rw [(Kernel.follow_sound hs₁).2] at hs₂
  obtain ⟨hne, hfollow⟩ := Kernel.follow_sound hs₂
  have hfollow' : K.follow (K.elfFileAt elfFile).elfMemory = K := hfollow
  refine ⟨hne, ?_⟩
  have hval : elfValidateLoaded K.mem (K.elfFileAt elfFile).elfMemory = allOk ∨
      elfValidateLoaded K.mem (K.elfFileAt elfFile).elfMemory = -einformat := by
    unfold elfValidateLoaded
    split
    · exact .inl rfl
    · exact .inr rfl
  unfold elfProcessLoaded
  dsimp only
  rw [(Kernel.follow_sound hs₁).2, hfollow']
  rcases hval with hval | hval
  · rw [hval, if_neg (by decide)]
    exact .inr ⟨_, elfProcessPheaders_elfMemory K.mem _ 0 (K.elfFileAt elfFile), rfl⟩
  · rw [hval, if_pos (by decide)]
    exact .inl rfl

/-- `elf_load` of an open file: the image joins the scope, or the file leaves it. -/
theorem Scope.elfOpened (hF : F.Sound owned) (hR : F.Regular) (h : Scope owned rest K₀ K obj)
    (helf : obj .elfFile = some (be, ne)) (himage : obj .image = none)
    (hnull : K.imageOf (blockAddr be) = 0)
    (hs : (elfLoad.opened F K (blockAddr be) fd).2.kmem.Sound) :
    ∃ res K', elfLoad.opened F K (blockAddr be) fd = (res, K') ∧ K.FileOnly K' ∧
      ((∃ bi ni, res = allOk ∧ K'.imageOf (blockAddr be) = blockAddr bi ∧
          Scope owned rest K₀ K' (Function.update obj .image (some (bi, ni)))) ∨
        (res < 0 ∧ Scope owned rest K₀ K' (Function.update obj .elfFile none))) := by
  rw [elfLoad_opened_eq] at hs ⊢
  have hsi : (elfLoad.image F K (blockAddr be) fd).2.2.kmem.Sound := by
    refine Kmem.Rises.sound ?_ hs
    dsimp only
    split
    · exact elfLoad_out_rises hF.rises _ _ _ _
    · exact (elfProcessLoaded_rises _ _).trans (elfLoad_out_rises hF.rises _ _ _ _)
  obtain ⟨res, size, K₁, obj', he, honly, h₁, hat, hobj, hreached⟩ :=
    h.elfImageAt hF hR helf himage hnull hsi
  rw [he] at hs ⊢
  dsimp only at hs ⊢
  have helf' : obj' .elfFile = some (be, ne) := by
    rcases hobj with rfl | ⟨c, rfl⟩
    · exact helf
    · rw [Function.update_of_ne (by decide), helf]
  have hleft : Function.update (Function.update obj' .image none) .elfFile none =
      Function.update obj .elfFile none := by
    rcases hobj with rfl | ⟨c, rfl⟩
    · rw [← himage, Function.update_eq_self]
    · rw [update_none himage]
  have hfail : ∀ res : Int, res < 0 → (elfLoad.out F K₁ (blockAddr be) fd res).2.kmem.Sound →
      ∃ res' K', elfLoad.out F K₁ (blockAddr be) fd res = (res', K') ∧ K.FileOnly K' ∧
        res' < 0 ∧ Scope owned rest K₀ K' (Function.update obj .elfFile none) := fun res hres hs => by
    obtain ⟨hneg, honly', h₂⟩ := h₁.elfOut hF helf' hat hres hs
    rw [hleft] at h₂
    exact ⟨_, _, rfl, honly.trans honly', hneg, h₂⟩
  by_cases hres : res < 0
  · rw [if_pos hres] at hs ⊢
    obtain ⟨res', K', he', honly', hneg, h₂⟩ := hfail res hres hs
    exact ⟨res', K', he', honly', .inr ⟨hneg, h₂⟩⟩
  rw [if_neg hres] at hs ⊢
  obtain ⟨hne, hout⟩ := elfProcessLoaded_outcome ((elfLoad_out_rises hF.rises _ _ _ _).sound hs)
  rcases hout with hrej | ⟨v, hv, hacc⟩
  · rw [hrej] at hs ⊢
    obtain ⟨res', K', he', honly', hneg, h₂⟩ := hfail _ (show -einformat < 0 by decide) hs
    exact ⟨res', K', he', honly', .inr ⟨hneg, h₂⟩⟩
  · rw [hacc] at hs ⊢
    dsimp only at hs ⊢
    unfold elfLoad.out at hs ⊢
    rw [if_neg (show ¬ allOk < 0 by decide)] at hs ⊢
    have h₂ := (h₁.setElfFile helf' v).fclose hF fd hs
    refine ⟨allOk, _, rfl, honly.trans rfl, .inl ?_⟩
    cases hat with
    | image bi ni himage' hptr =>
      refine ⟨bi, ni, rfl, ?_, ?_⟩
      · change ((K₁.setElfFile (blockAddr be) v).elfFileAt (blockAddr be)).elfMemory = blockAddr bi
        unfold Kernel.setElfFile
        dsimp only
        rw [Function.update_self, hv, hptr]
      · rcases hobj with rfl | ⟨c, rfl⟩
        · rw [himage] at himage'
          cases himage'
        · rw [Function.update_self] at himage'
          rw [himage'] at h₂
          exact h₂
    | null himage' hptr => exact absurd hptr hne
    | empty b himage' _ _ _ => exact absurd himage' (hreached (not_lt.1 hres) hne)

/-- A null `elf_file` is followed. -/
theorem elfLoad_opened_null (hF : F.Rises) : ¬ (elfLoad.opened F K 0 fd).2.kmem.Sound := fun hs => by
  rw [elfLoad_opened_eq] at hs
  dsimp only at hs
  have hfree : ∀ (L : Kernel σ) (res : Int), res < 0 → ¬ (elfLoad.out F L 0 fd res).2.kmem.Sound :=
    fun L res hres hs => by
      unfold elfLoad.out at hs
      rw [if_pos hres] at hs
      have hs₁ := (Kernel.fclose_rises hF _ _).sound hs
      have hs₂ : (L.follow 0).kmem.Sound := by
        refine Kmem.Rises.sound ?_ hs₁
        unfold elfFileFree
        dsimp only
        split
        · exact (Kernel.kfree_rises _ _).trans (Kernel.kfree_rises _ _)
        · exact Kernel.kfree_rises _ _
      exact (Kernel.follow_sound hs₂).1 rfl
  split at hs
  · rename_i hres
    exact hfree _ _ hres hs
  · have hs₁ := (elfLoad_out_rises hF _ _ _ _).sound hs
    have hs₂ := (Kernel.follow_rises _ _).sound ((elfProcessLoaded_follow_rises _ 0).sound hs₁)
    exact (Kernel.follow_sound hs₂).1 rfl

/-- A refused `elf_file` is followed. -/
theorem elfLoad_new_ne (hF : F.Rises) (hs : (elfLoad F K filename).2.2.kmem.Sound) :
    (elfFileNew K).1 ≠ 0 := fun hzero => by
  obtain ⟨⟨elfFile, K₁⟩, hnew⟩ : ∃ r, elfFileNew K = r := ⟨_, rfl⟩
  rw [hnew] at hzero
  subst hzero
  unfold elfLoad at hs
  rw [hnew] at hs
  dsimp only at hs
  split at hs
  · -- the null pointer is freed
    unfold elfLoad.out at hs
    rw [if_pos (by decide)] at hs
    have hs₁ := (Kernel.fclose_rises hF _ _).sound hs
    have hs₂ : ((K₁.fopen F filename).2.follow 0).kmem.Sound := by
      refine Kmem.Rises.sound ?_ hs₁
      unfold elfFileFree
      dsimp only
      split
      · exact (Kernel.kfree_rises _ _).trans (Kernel.kfree_rises _ _)
      · exact Kernel.kfree_rises _ _
    exact (Kernel.follow_sound hs₂).1 rfl
  · exact elfLoad_opened_null hF hs

/-- `elf_load`: the file and its image join the scope, or it is as it was. -/
theorem Scope.elfLoad (hF : F.Sound owned) (hR : F.Regular) (h : Scope owned rest K₀ K obj)
    (helf : obj .elfFile = none) (himage : obj .image = none)
    (hs : (elfLoad F K filename).2.2.kmem.Sound) :
    ∃ res elfFile K', Pandora.elfLoad F K filename = (res, elfFile, K') ∧ K.FileOnly K' ∧
      ((∃ be ne bi ni, res = allOk ∧ elfFile = blockAddr be ∧
          K'.imageOf (blockAddr be) = blockAddr bi ∧
          Scope owned rest K₀ K'
            (Function.update (Function.update obj .elfFile (some (be, ne))) .image
              (some (bi, ni)))) ∨
        (res < 0 ∧ Scope owned rest K₀ K' obj)) := by
  have hz := (elfLoad_new_rises hF.rises K filename).sound hs
  rw [elfFileNew_kmem] at hz
  rcases h.kzalloc helf (by decide) (by decide) hz with ⟨he, -⟩ | ⟨be, ne, hbe, -, -, he, h₁⟩
  · refine absurd ?_ (elfLoad_new_ne hF.rises hs)
    unfold elfFileNew
    rw [he]
    rfl
  · obtain ⟨K₁, hK₁⟩ : ∃ K₁, Kernel.setElfFile { K with kmem := K.kmem.take be ne sizeofElfFile }
      (blockAddr be) {} = K₁ := ⟨_, rfl⟩
    have hnew : elfFileNew K = (blockAddr be, K₁) := by
      unfold elfFileNew
      rw [he]
      dsimp only
      rw [if_neg (blockAddr_ne_zero be), hK₁]
    have helf₁ : Function.update obj .elfFile (some (be, ne)) .elfFile = some (be, ne) :=
      Function.update_self _ _ _
    have himage₁ : Function.update obj .elfFile (some (be, ne)) .image = none := by
      rw [Function.update_of_ne (by decide), himage]
    have h₂ : Scope owned rest K₀ K₁ (Function.update obj .elfFile (some (be, ne))) := by
      rw [← hK₁]
      exact h₁.setElfFile helf₁ _
    have honly₁ : K.FileOnly K₁ := by
      rw [← hK₁]
      rfl
    have hnull₁ : K₁.imageOf (blockAddr be) = 0 := by
      rw [← hK₁]
      unfold Kernel.imageOf Kernel.setElfFile
      dsimp only
      rw [Function.update_self]
    unfold Pandora.elfLoad at hs ⊢
    rw [hnew] at hs ⊢
    dsimp only at hs ⊢
    obtain ⟨⟨res, K₂⟩, hopen⟩ : ∃ r, K₁.fopen F filename = r := ⟨_, rfl⟩
    have honly₂ : K.FileOnly K₂ := by
      refine honly₁.trans ?_
      have : (K₁.fopen F filename).2 = K₂ := by rw [hopen]
      rw [← this]
      rfl
    have hnull₂ : K₂.imageOf (blockAddr be) = 0 := by
      have : (K₁.fopen F filename).2 = K₂ := by rw [hopen]
      rw [← this]
      exact hnull₁
    rw [hopen] at hs ⊢
    dsimp only at hs ⊢
    have hs₂ : K₂.kmem.Sound := by
      split at hs
      · exact (elfLoad_out_rises hF.rises _ _ _ _).sound hs
      · exact (elfLoad_opened_rises hF.rises _ _ _).sound hs
    have h₃ : Scope owned rest K₀ K₂ (Function.update obj .elfFile (some (be, ne))) := by
      have := h₂.fopen hF filename (by rw [hopen]; exact hs₂)
      rwa [hopen] at this
    by_cases hres : res ≤ 0
    · simp only [if_pos hres] at hs ⊢
      obtain ⟨hneg, honly', h₄⟩ := h₃.elfOut hF helf₁ (.null himage₁ hnull₂)
        (show -eio < 0 by decide) hs
      have hsame : Function.update (Function.update obj .elfFile (some (be, ne))) .image none =
          Function.update obj .elfFile (some (be, ne)) := by
        rw [← himage₁, Function.update_eq_self]
      rw [hsame, update_none helf] at h₄
      exact ⟨_, _, _, rfl, honly₂.trans honly', .inr ⟨hneg, h₄⟩⟩
    · simp only [if_neg hres] at hs ⊢
      obtain ⟨res', K', he', honly', hcases⟩ := h₃.elfOpened hF hR helf₁ himage₁ hnull₂ hs
      rw [he']
      dsimp only
      rcases hcases with ⟨bi, ni, rfl, hptr, h₄⟩ | ⟨hneg, h₄⟩
      · exact ⟨_, _, _, rfl, honly₂.trans honly', .inl ⟨be, ne, bi, ni, rfl, rfl, hptr, h₄⟩⟩
      · rw [update_none helf] at h₄
        exact ⟨_, _, _, rfl, honly₂.trans honly', .inr ⟨hneg, h₄⟩⟩

/-! ## Raw binary files -/

/-- From the label `out` on, without an image. -/
theorem Scope.binaryOut (hF : F.Sound owned) (h : Scope owned rest K₀ K obj) {res : Int}
    (hs : (processLoadBinary.out F K 0 fd res).2.kmem.Sound) :
    ∃ K', processLoadBinary.out F K 0 fd res = (res, K') ∧ K.FileOnly K' ∧
      Scope owned rest K₀ K' obj := by
  unfold processLoadBinary.out at hs ⊢
  simp only [ne_eq, not_true_eq_false, and_false, if_false] at hs ⊢
  exact ⟨_, rfl, rfl, h.fclose hF fd hs⟩

/-- `process_load_binary` of an open file. -/
theorem Scope.binaryOpened (hF : F.Sound owned) (hR : F.Regular) (h : Scope owned rest K₀ K obj)
    {process bp np : Nat} (hprocess : obj .process = some (bp, np)) (hp : process = blockAddr bp)
    (himage : obj .image = none) (hs : (processLoadBinary.opened F K process fd).2.kmem.Sound) :
    ∃ res K', processLoadBinary.opened F K process fd = (res, K') ∧
      ((∃ L bi ni size, res = allOk ∧ size ≤ 4096 * ni ∧ K.FileOnly L ∧
          K' = L.setProcess process { K.processAt process with
            filetype := .binary
            ptr := blockAddr bi
            size := size } ∧
          Scope owned rest K₀ K' (Function.update obj .image (some (bi, ni)))) ∨
        (res < 0 ∧ K.FileOnly K' ∧ Scope owned rest K₀ K' obj)) := by
  unfold processLoadBinary.opened at hs ⊢
  obtain ⟨⟨st, filesize⟩, hstat⟩ : ∃ r, K.fstat F fd = r := ⟨_, rfl⟩
  have hst := hR.fstat_le fd K.files K.kmem
  have hsize := hR.size_lt fd K.files K.kmem
  unfold Kernel.fstat at hstat
  rw [hstat] at hst hsize
  unfold Kernel.fstat at hs ⊢
  rw [hstat] at hs ⊢
  dsimp only at hs hst hsize ⊢
  by_cases hok : st ≠ allOk
  · rw [if_pos hok] at hs ⊢
    obtain ⟨K', he, honly, h'⟩ := h.binaryOut hF hs
    have hneg : st < 0 := lt_of_le_of_ne hst hok
    exact ⟨st, K', he, .inr ⟨hneg, honly, h'⟩⟩
  rw [if_neg hok] at hs ⊢
  have hz : (K.kzalloc filesize).2.kmem.Sound := by
    refine Kmem.Rises.sound ?_ hs
    split
    · exact processLoadBinary_out_rises hF.rises _ _ _ _
    · have hr := (K.kzalloc filesize).2.fread_rises hF.rises (K.kzalloc filesize).1 filesize 1 fd
      split
      · exact hr.trans (processLoadBinary_out_rises hF.rises _ _ _ _)
      · exact hr.trans (processLoadBinary_out_rises hF.rises
          ((Kernel.fread F (K.kzalloc filesize).2 (K.kzalloc filesize).1 filesize 1 fd).2.setProcess
            process _) _ _ _)
  obtain ⟨obj', hans, h₁⟩ := h.answered himage hsize hz
  have honly₁ : K.FileOnly (K.kzalloc filesize).2 := rfl
  obtain ⟨⟨ptr, K₁⟩, hk⟩ : ∃ r, K.kzalloc filesize = r := ⟨_, rfl⟩
  rw [hk] at hs hans h₁ honly₁ ⊢
  dsimp only at hs hans h₁ honly₁ ⊢
  by_cases hptr : ptr = 0
  · rw [if_pos hptr] at hs ⊢
    obtain ⟨K', he, honly, h'⟩ := h₁.binaryOut hF hs
    have hobj : obj' = obj := by
      cases hans with
      | denied _ => rfl
      | empty b _ _ _ _ => rfl
      | taken b n hp _ _ => exact absurd (hp.symm.trans hptr) (blockAddr_ne_zero b)
    rw [hobj] at h'
    exact ⟨_, K', he, .inr ⟨show -enomem < 0 by decide, honly₁.trans honly, h'⟩⟩
  rw [if_neg hptr] at hs ⊢
  obtain ⟨⟨read, K₂⟩, hread⟩ : ∃ r, K₁.fread F ptr filesize 1 fd = r := ⟨_, rfl⟩
  have hread₂ : (K₁.fread F ptr filesize 1 fd).2 = K₂ := by rw [hread]
  have honly₂ : K.FileOnly K₂ := by
    rw [← hread₂]
    exact honly₁.trans rfl
  have hproc₂ : K₂.processAt = K.processAt := by rw [honly₂]
  rw [hread] at hs ⊢
  dsimp only at hs ⊢
  have hs₂ : K₂.kmem.Sound := by
    split at hs
    · exact (processLoadBinary_out_rises hF.rises _ _ _ _).sound hs
    · exact (processLoadBinary_out_rises hF.rises (K₂.setProcess process _) _ _ _).sound hs
  have hsread : (K₁.fread F ptr filesize 1 fd).2.kmem.Sound := hread₂.symm ▸ hs₂
  have hfail : processLoadBinary.out F K₂ ptr fd (-eio) = (-eio, (K₂.kfree ptr).fclose F fd) := by
    unfold processLoadBinary.out
    rw [if_pos ⟨show -eio < 0 by decide, hptr⟩]
  have hfree : ∀ {obj'}, Scope owned rest K₀ (K₂.kfree ptr) obj' →
      (processLoadBinary.out F K₂ ptr fd (-eio)).2.kmem.Sound → obj' = obj →
      ∃ res K', processLoadBinary.out F K₂ ptr fd (-eio) = (res, K') ∧ res < 0 ∧ K.FileOnly K' ∧
        Scope owned rest K₀ K' obj := fun {obj'} h₃ hs he => by
    rw [hfail] at hs ⊢
    exact ⟨_, _, rfl, by decide, honly₂.trans rfl, he ▸ h₃.fclose hF fd hs⟩
  cases hans with
  | denied hp => exact absurd hp hptr
  | empty b hzero hp hb hf =>
    -- nothing is read
    obtain ⟨res', hneg, hread'⟩ := hR.fread_zero ptr 1 fd K₁.files K₁.kmem
    have hres : (read, K₂) = (res', K₁) := by
      rw [← hread, hzero]
      unfold Kernel.fread
      rw [hread']
    obtain ⟨rfl, rfl⟩ := Prod.mk.inj hres
    rw [if_pos (show read ≠ 1 by omega)] at hs ⊢
    obtain ⟨res, K', he, hout⟩ := hfree (hp ▸ h₁.kfree_free hb hf) hs rfl
    exact ⟨res, K', he, .inr hout⟩
  | taken b n hp hb hle =>
    have hself : Function.update obj .image (some (b, n)) .image = some (b, n) :=
      Function.update_self _ _ _
    have h₂ := h₁.fread hF (.inr ⟨.image, b, n, hself, hp, by omega⟩) hsread
    rw [hread₂] at h₂
    by_cases hone : read ≠ 1
    · rw [if_pos hone] at hs ⊢
      obtain ⟨res, K', he, hout⟩ := hfree (hp ▸ h₂.kfree hself) hs (update_none himage _)
      exact ⟨res, K', he, .inr hout⟩
    · rw [if_neg hone] at hs ⊢
      have hprocess' : Function.update obj .image (some (b, n)) .process = some (bp, np) := by
        rw [Function.update_of_ne (by decide), hprocess]
      obtain ⟨v, hv⟩ : ∃ v : Process, { K₂.processAt process with
          filetype := .binary
          ptr := ptr
          size := filesize } = v := ⟨_, rfl⟩
      rw [hv] at hs ⊢
      rw [hproc₂, hp] at hv
      have hout : processLoadBinary.out F (K₂.setProcess process v) ptr fd allOk =
          (allOk, (K₂.setProcess process v).fclose F fd) := by
        unfold processLoadBinary.out
        rw [if_neg fun hc => absurd hc.1 (by decide)]
      have h₃ : Scope owned rest K₀ (K₂.setProcess process v)
          (Function.update obj .image (some (b, n))) := by
        subst process
        exact h₂.setProcess hprocess' v
      rw [hout] at hs ⊢
      refine ⟨_, _, rfl, .inl ⟨K₂.fclose F fd, b, n, filesize, rfl, hle, honly₂.trans rfl, ?_,
        h₃.fclose hF fd hs⟩⟩
      rw [hv]
      rfl

/-- `process_load_binary`: the data of the process join the scope, or it is as it was. -/
theorem Scope.processLoadBinary (hF : F.Sound owned) (hR : F.Regular) (h : Scope owned rest K₀ K obj)
    {process bp np : Nat} (hprocess : obj .process = some (bp, np)) (hp : process = blockAddr bp)
    (himage : obj .image = none) (hs : (processLoadBinary F K filename process).2.kmem.Sound) :
    ∃ res K', Pandora.processLoadBinary F K filename process = (res, K') ∧
      ((∃ L bi ni size, res = allOk ∧ size ≤ 4096 * ni ∧ K.FileOnly L ∧
          K' = L.setProcess process { K.processAt process with
            filetype := .binary
            ptr := blockAddr bi
            size := size } ∧
          Scope owned rest K₀ K' (Function.update obj .image (some (bi, ni)))) ∨
        (res < 0 ∧ K.FileOnly K' ∧ Scope owned rest K₀ K' obj)) := by
  unfold Pandora.processLoadBinary at hs ⊢
  obtain ⟨⟨fd, K₁⟩, hopen⟩ : ∃ r, K.fopen F filename = r := ⟨_, rfl⟩
  have hopen₁ : (K.fopen F filename).2 = K₁ := by rw [hopen]
  have honly₁ : K.FileOnly K₁ := by
    rw [← hopen₁]
    rfl
  have hproc₁ : K₁.processAt = K.processAt := by rw [honly₁]
  rw [hopen] at hs ⊢
  dsimp only at hs ⊢
  have hs₁ : K₁.kmem.Sound := by
    split at hs
    · exact (processLoadBinary_out_rises hF.rises _ _ _ _).sound hs
    · exact (processLoadBinary_opened_rises hF.rises _ _ _).sound hs
  have h₁ : Scope owned rest K₀ K₁ obj := by
    rw [← hopen₁] at hs₁ ⊢
    exact h.fopen hF filename hs₁
  by_cases hfd : fd = 0
  · rw [if_pos hfd] at hs ⊢
    obtain ⟨K', he, honly, h'⟩ := h₁.binaryOut hF hs
    exact ⟨_, K', he, .inr ⟨by decide, honly₁.trans honly, h'⟩⟩
  rw [if_neg hfd] at hs ⊢
  obtain ⟨res, K', he, hcases⟩ := h₁.binaryOpened hF hR hprocess hp himage hs
  refine ⟨res, K', he, ?_⟩
  rcases hcases with ⟨L, bi, ni, size, hres, hle, honly, hK', h'⟩ | ⟨hneg, honly, h'⟩
  · exact .inl ⟨L, bi, ni, size, hres, hle, honly₁.trans honly, by rw [hK', hproc₁], h'⟩
  · exact .inr ⟨hneg, honly₁.trans honly, h'⟩

/-! ## The data of a process -/

/-- The process points to its program: an ELF file and its image, or a raw image. -/
inductive ProgramAt (K : Kernel σ) (obj : Role → Option (Nat × Nat)) (process : Nat) : Prop where
  | elf (be ne bi ni : Nat) : (K.processAt process).filetype = .elf →
      (K.processAt process).ptr = blockAddr be → obj .elfFile = some (be, ne) →
      K.imageOf (blockAddr be) = blockAddr bi → obj .image = some (bi, ni) →
      ProgramAt K obj process
  | binary (bi ni : Nat) : (K.processAt process).filetype = .binary →
      (K.processAt process).ptr = blockAddr bi → (K.processAt process).size ≤ 4096 * ni →
      obj .elfFile = none → obj .image = some (bi, ni) → ProgramAt K obj process

/-- The program is where the structures point to. -/
theorem ProgramAt.congr {obj' : Role → Option (Nat × Nat)} {process : Nat}
    (h : ProgramAt K obj process)
    (hft : (K'.processAt process).filetype = (K.processAt process).filetype)
    (hptr : (K'.processAt process).ptr = (K.processAt process).ptr)
    (hsize : (K'.processAt process).size = (K.processAt process).size)
    (himage : K'.imageOf (K.processAt process).ptr = K.imageOf (K.processAt process).ptr)
    (hobj : ∀ r, r = .elfFile ∨ r = .image → obj' r = obj r) : ProgramAt K' obj' process := by
  cases h with
  | elf be ne bi ni hft' hptr' helf hat hi =>
    refine .elf be ne bi ni (hft.trans hft') (hptr.trans hptr') ((hobj _ (.inl rfl)).trans helf) ?_
      ((hobj _ (.inr rfl)).trans hi)
    rw [hptr'] at himage
    exact himage.trans hat
  | binary bi ni hft' hptr' hle helf hi =>
    exact .binary bi ni (hft.trans hft') (hptr.trans hptr') (hsize.symm ▸ hle)
      ((hobj _ (.inl rfl)).trans helf) ((hobj _ (.inr rfl)).trans hi)

/-- What `process_load_data` does to the process. -/
structure DataLoaded (K K' : Kernel σ) (obj obj' : Role → Option (Nat × Nat)) (process : Nat) :
    Prop where
  state : ∃ L v, K.FileOnly L ∧ K' = L.setProcess process v ∧
    v = { K.processAt process with filetype := v.filetype, ptr := v.ptr, size := v.size }
  program : ProgramAt K' obj' process
  others : ∀ r, r ≠ .elfFile → r ≠ .image → obj' r = obj r

/-- `process_load_data`: the program joins the scope, or the scope is as it was. -/
theorem Scope.processLoadData (hF : F.Sound owned) (hR : F.Regular) (h : Scope owned rest K₀ K obj)
    {process bp np : Nat} (hprocess : obj .process = some (bp, np)) (hp : process = blockAddr bp)
    (helf : obj .elfFile = none) (himage : obj .image = none)
    (hs : (processLoadData F K filename process).2.kmem.Sound) :
    ∃ res K', Pandora.processLoadData F K filename process = (res, K') ∧
      ((∃ obj', res = allOk ∧ DataLoaded K K' obj obj' process ∧ Scope owned rest K₀ K' obj') ∨
        (res < 0 ∧ K.FileOnly K' ∧ Scope owned rest K₀ K' obj)) := by
  unfold Pandora.processLoadData at hs ⊢
  obtain ⟨⟨res₁, K₁⟩, he⟩ : ∃ r, processLoadElf F K filename process = r := ⟨_, rfl⟩
  have hs₁ : K₁.kmem.Sound := by
    rw [he] at hs
    dsimp only at hs
    split at hs
    · exact (processLoadBinary_rises hF.rises _ _ _).sound hs
    · exact hs
  have hse : (Pandora.elfLoad F K filename).2.2.kmem.Sound := by
    have hk : K₁ = (processLoadElf F K filename process).2 := by rw [he]
    rw [hk] at hs₁
    unfold processLoadElf at hs₁
    dsimp only at hs₁
    split at hs₁
    · exact hs₁
    · exact hs₁
  obtain ⟨res, elfFile, K₂, hload, honly, hcases⟩ := h.elfLoad hF hR helf himage hse
  have hproc : K₂.processAt = K.processAt := by rw [honly]
  have he₁ := he
  unfold processLoadElf at he₁
  rw [hload] at he₁
  dsimp only at he₁
  rcases hcases with ⟨be, ne, bi, ni, rfl, rfl, hat, h₂⟩ | ⟨hneg, h₂⟩
  · rw [if_neg (show ¬ allOk < 0 by decide), Prod.mk.injEq] at he₁
    obtain ⟨rfl, hK₁⟩ := he₁
    obtain ⟨obj', hobj'⟩ : ∃ obj', Function.update (Function.update obj .elfFile (some (be, ne)))
      .image (some (bi, ni)) = obj' := ⟨_, rfl⟩
    rw [hobj'] at h₂
    have hothers : ∀ r, r ≠ .elfFile → r ≠ .image → obj' r = obj r := fun r h1 h2 => by
      rw [← hobj', Function.update_of_ne h2, Function.update_of_ne h1]
    obtain ⟨v, hv⟩ : ∃ v : Process,
      { K₂.processAt process with filetype := .elf, ptr := blockAddr be } = v := ⟨_, rfl⟩
    rw [hv] at hK₁
    have h₃ : Scope owned rest K₀ K₁ obj' := by
      rw [← hK₁, hp]
      exact h₂.setProcess ((hothers _ (by decide) (by decide)).trans hprocess) v
    have hat₁ : K₁.processAt process = v := by
      rw [← hK₁]
      exact Function.update_self _ _ _
    rw [he]
    dsimp only
    rw [if_neg (show ¬ allOk = -einformat by decide)]
    refine ⟨_, _, rfl, .inl ⟨obj', rfl, ⟨⟨K₂, v, honly, hK₁.symm, ?_⟩, ?_, hothers⟩, h₃⟩⟩
    · rw [← hv, hproc]
    · refine .elf be ne bi ni ?_ ?_ ?_ ?_ ?_
      · rw [hat₁, ← hv]
      · rw [hat₁, ← hv]
      · rw [← hobj']
        rfl
      · rw [← hK₁]
        exact hat
      · rw [← hobj']
        exact Function.update_self _ _ _
  · rw [if_pos hneg, Prod.mk.injEq] at he₁
    obtain ⟨rfl, rfl⟩ := he₁
    rw [he] at hs ⊢
    dsimp only at hs ⊢
    by_cases hformat : res = -einformat
    · rw [if_pos hformat] at hs ⊢
      obtain ⟨res', K', he', hcases⟩ := h₂.processLoadBinary hF hR hprocess hp himage hs
      refine ⟨res', K', he', ?_⟩
      rcases hcases with ⟨L, bi, ni, size, hres, hle, honly', hK', h'⟩ | ⟨hneg', honly', h'⟩
      · have hat' : K'.processAt process = { K₂.processAt process with
            filetype := .binary
            ptr := blockAddr bi
            size := size } := by
          rw [hK']
          exact Function.update_self _ _ _
        refine .inl ⟨_, hres, ⟨⟨L, _, honly.trans honly', hK', by rw [hproc]⟩,
          .binary bi ni ?_ ?_ ?_ ?_ (Function.update_self _ _ _), fun r _ hr =>
            Function.update_of_ne hr _ _⟩, h'⟩
        · rw [hat']
        · rw [hat']
        · rw [hat']
          exact hle
        · rw [Function.update_of_ne (by decide), helf]
      · exact .inr ⟨hneg', honly.trans honly', h'⟩
    · rw [if_neg hformat]
      exact ⟨res, K₂, rfl, .inr ⟨hneg, honly, h₂⟩⟩

end

end Pandora
