import Pandora.Heap.Held
import Pandora.Process.Ghosts
import Pandora.Process.Scope
import Pandora.Process.Segments

/-!
# What the parts of a load leave alone

`Scope` through the calls a load is made of. The file layer keeps to blocks of its own
(`FileLayer.Sound`, `Scope.layerCall`), an allocation and a new page directory take free blocks
(`Scope.kzalloc`, `Scope.newPaging`), and mapping writes to the tables of one directory
(`Kernel.mapTo_cases`, `Scope.mapTo`). `Role` names the allocations of a process.
-/

namespace Pandora

open ByteMem

/-- The allocations made on behalf of a process. -/
inductive Role where
  | process
  | elfFile
  | image
  | stack
  | task
  | chunk
  | directory
  | table (i : Nat)
  | allocation (i : Nat)
deriving DecidableEq

/-! ## The file layer -/

section

variable {σ ι : Type}

/-- A call of the file layer from `s` and `k` to `s'` and `k'`. It allocates and frees blocks of its
own, and the other taken blocks stay as they are, but for the bytes `written`. -/
structure LayerCall (owned : σ → Nat → Prop) (written : Nat → Prop) (s : σ) (k : Kmem) (s' : σ)
    (k' : Kmem) : Prop where
  tidy : Tidy (owned s) k → Tidy (owned s') k'
  others : Tidy (owned s) k → ∀ b < 25600,
    (¬ Free (k'.heap.table.entries b) ∧ ¬ owned s' b ↔
      ¬ Free (k.heap.table.entries b) ∧ ¬ owned s b)
  kept : Tidy (owned s) k → ∀ b < 25600, ¬ Free (k.heap.table.entries b) → ¬ owned s b →
    k'.heap.table.entries b = k.heap.table.entries b ∧
      ∀ x, blockAddr b ≤ x → x < blockAddr b + 4096 → ¬ written x → k'.mem x = k.mem x

/-- The calls that end without a fault and without a short run keep to their blocks. -/
structure FileLayer.Sound (F : FileLayer σ) (owned : σ → Nat → Prop) : Prop where
  rises : F.Rises
  fopen : ∀ filename s k, (F.fopen filename s k).2.2.Sound →
    LayerCall owned (fun _ => False) s k (F.fopen filename s k).2.1 (F.fopen filename s k).2.2
  fread : ∀ ptr size nmemb fd s k, (F.fread ptr size nmemb fd s k).2.2.Sound →
    LayerCall owned (fun x => ptr ≠ 0 ∧ ptr ≤ x ∧ x < ptr + size * nmemb) s k
      (F.fread ptr size nmemb fd s k).2.1 (F.fread ptr size nmemb fd s k).2.2
  fclose : ∀ fd s k, (F.fclose fd s k).2.2.Sound →
    LayerCall owned (fun _ => False) s k (F.fclose fd s k).2.1 (F.fclose fd s k).2.2

variable {owned : σ → Nat → Prop} {rest : Nat → Prop} {K₀ K K' : Kernel σ}
  {obj : ι → Option (Nat × Nat)} {i : ι} {size : Nat}

/-- A call of the file layer that writes nowhere in the rest. -/
theorem Scope.layerCall (h : Scope owned rest K₀ K obj) {written : Nat → Prop} {s' : σ} {k' : Kmem}
    (hc : LayerCall owned written K.files K.kmem s' k')
    (hw : ∀ b, rest b → ∀ x, blockAddr b ≤ x → x < blockAddr b + 4096 → ¬ written x) :
    Scope owned rest K₀ { K with files := s', kmem := k' } obj := by
  have hothers := hc.others h.tidy
  have hkept := hc.kept h.tidy
  -- the blocks of an allocation in scope are none of the file layer
  have hobj : ∀ {i b n j}, obj i = some (b, n) → b ≤ j → j < b + n →
      j < 25600 ∧ ¬ Free (K.entries j) ∧ ¬ owned K.files j := fun hi hj hj' => by
    obtain ⟨hle, hch⟩ := h.chain _ _ _ hi
    exact ⟨by omega, hch.not_free hj hj' (by omega), (h.apart _ _ ⟨_, _, hi, hj, hj'⟩).2⟩
  refine ⟨hc.tidy h.tidy, fun i b n hi => ?_, h.inj, fun i j hj => ?_, fun b hb => ?_,
    fun b hb => ?_, fun b hb hf => ?_⟩
  · obtain ⟨hle, hch⟩ := h.chain i b n hi
    refine ⟨hle, hch.congr fun j hj hj' _ => ?_⟩
    obtain ⟨hlt, hf, ho⟩ := hobj hi hj hj'
    exact (hkept j hlt hf ho).1
  · obtain ⟨b, n, hi, hj, hj'⟩ := hj
    obtain ⟨hlt, hf, ho⟩ := hobj hi hj hj'
    exact ⟨(h.apart i j ⟨b, n, hi, hj, hj'⟩).1, ((hothers j hlt).2 ⟨hf, ho⟩).2⟩
  · obtain ⟨hlt, hf, ho⟩ := h.taken b hb
    exact ⟨hlt, (hothers b hlt).2 ⟨hf, ho⟩⟩
  · obtain ⟨hlt, hf, ho⟩ := h.taken b hb
    obtain ⟨he, hm, hstruct⟩ := h.same b hb
    obtain ⟨he', hm'⟩ := hkept b hlt hf ho
    exact ⟨he'.trans he, hm.trans fun x hx hx' => hm' x hx hx' (hw b hb x hx hx'),
      hstruct.trans ⟨rfl, rfl, rfl⟩⟩
  · by_cases ho : owned s' b
    · exact .inr (.inl ho)
    · obtain ⟨hf', ho'⟩ := (hothers b hb).1 ⟨hf, ho⟩
      rcases h.cover b hb hf' with hr | ho | hi
      · exact .inl hr
      · exact absurd ho ho'
      · exact .inr (.inr hi)

/-- The structure of an allocation in scope is written. -/
theorem Scope.setProcess (h : Scope owned rest K₀ K obj) {b n : Nat} (hi : obj i = some (b, n))
    (v : Process) : Scope owned rest K₀ (K.setProcess (blockAddr b) v) obj :=
  h.update rfl rfl fun j hj => ⟨.refl _ j,
    Function.update_of_ne (fun he => h.ne_of_rest hi hj (blockAddr_inj.1 he)) _ _, rfl, rfl⟩

theorem Scope.setElfFile (h : Scope owned rest K₀ K obj) {b n : Nat} (hi : obj i = some (b, n))
    (v : ElfFile) : Scope owned rest K₀ (K.setElfFile (blockAddr b) v) obj :=
  h.update rfl rfl fun j hj => ⟨.refl _ j, rfl,
    Function.update_of_ne (fun he => h.ne_of_rest hi hj (blockAddr_inj.1 he)) _ _, rfl⟩

theorem Scope.fopen {F : FileLayer σ} (hF : F.Sound owned) (h : Scope owned rest K₀ K obj)
    (filename : List UInt8) (hs : (K.fopen F filename).2.kmem.Sound) :
    Scope owned rest K₀ (K.fopen F filename).2 obj :=
  h.layerCall (hF.fopen filename K.files K.kmem hs) fun _ _ _ _ _ => id

theorem Scope.fclose {F : FileLayer σ} (hF : F.Sound owned) (h : Scope owned rest K₀ K obj)
    (fd : Int) (hs : (K.fclose F fd).kmem.Sound) : Scope owned rest K₀ (K.fclose F fd) obj :=
  h.layerCall (hF.fclose fd K.files K.kmem hs) fun _ _ _ _ _ => id

/-- The bytes go into an allocation in scope, or nowhere. -/
theorem Scope.fread {F : FileLayer σ} (hF : F.Sound owned) (h : Scope owned rest K₀ K obj)
    {ptr nmemb : Nat} {fd : Int}
    (hptr : ptr = 0 ∨ ∃ i b n, obj i = some (b, n) ∧ ptr = blockAddr b ∧ size * nmemb ≤ 4096 * n)
    (hs : (K.fread F ptr size nmemb fd).2.kmem.Sound) :
    Scope owned rest K₀ (K.fread F ptr size nmemb fd).2 obj := by
  refine h.layerCall (hF.fread ptr size nmemb fd K.files K.kmem hs) fun j hj x hx hx' hw => ?_
  obtain ⟨hne, hlo, hhi⟩ := hw
  rcases hptr with h0 | ⟨i, b, n, hi, rfl, hle⟩
  · exact hne h0
  · -- the byte would be in a block of the allocation
    refine (h.apart i j ⟨b, n, hi, ?_⟩).1 hj
    unfold blockAddr at hx hx' hlo hhi
    omega

/-! ## Allocation -/

/-- An allocation that did not run short. -/
theorem kzalloc_sound {k : Kmem} (hk : k.heap.Kernel) (hsize : size < 2 ^ 32)
    (hs : (kzalloc k size).2.short = false) :
    kzalloc k size = (0, k.deny) ∨
      ∃ b n, b + n ≤ 25600 ∧ b < 25600 ∧ FreeRun k.heap.table.entries b n ∧ size ≤ 4096 * n ∧
        kzalloc k size = (blockAddr b, k.take b n size) := by
  obtain ⟨n, hn⟩ : ∃ n, heapAlignValueToUpper size / 4096 = n := ⟨_, rfl⟩
  have hlt : n < 2 ^ 20 := hn ▸ alignValueToUpper_lt hsize
  obtain ⟨r, hr⟩ : ∃ r, heapMallocBlocks k.heap n = r := ⟨_, rfl⟩
  have hm := heapMallocBlocks_spec k.heap n
  have htotal := hk.total
  -- the run that was found is long enough for the bytes
  have hfits : ∀ b < 25600,
      r = (heapBlockToAddress k.heap b, heapMarkBlocksTaken k.heap b n) →
      size ≤ 4096 * n ∧ b + n ≤ 25600 := fun b hb he => by
    have hmalloc : heapMalloc k.heap size = (blockAddr b, heapMarkBlocksTaken k.heap b n) := by
      unfold heapMalloc
      rw [hn, hr, he, hk.blockToAddress hb]
    have hfit : k.heap.fits (blockAddr b) size = true := by
      have hne := blockAddr_ne_zero b
      unfold kzalloc kmalloc at hs
      simp only [hmalloc, hne, if_false, Bool.or_eq_false_iff] at hs
      simpa [hne] using hs.2
    unfold Heap.fits at hfit
    rw [Bool.and_eq_true, decide_eq_true_eq, decide_eq_true_eq, hn, htotal,
      ← hk.blockToAddress hb, blockOf_blockToAddress hk.shape.saddr_lt (by omega)] at hfit
    exact hfit
  rw [hr] at hm
  cases hm with
  | found b hpos hb hrun =>
    rw [htotal] at hb
    obtain ⟨hle, -⟩ := hfits b (by omega) rfl
    exact .inr ⟨b, n, hb, by omega, hrun, hle, kzalloc_of_found hk hn hle hb (by omega) hr⟩
  | short b hb htail =>
    rw [htotal] at hb htail
    obtain ⟨hle, hbn⟩ := hfits b hb rfl
    exact .inr ⟨b, n, hbn, hb, fun j hj => htail j (by omega), hle,
      kzalloc_of_found hk hn hle hbn hb hr⟩
  | none =>
    refine .inl (kzalloc_of_none ?_)
    unfold heapMalloc
    rw [hn, hr]

/-- The outcomes of an allocation that did not run short: none, or one for `i`. -/
theorem Scope.kzalloc [DecidableEq ι] (h : Scope owned rest K₀ K obj) (hi : obj i = none)
    (h1 : 1 ≤ size) (hsize : size < 2 ^ 32) (hs : (K.kzalloc size).2.kmem.Sound) :
    (K.kzalloc size = (0, { K with kmem := K.kmem.deny }) ∧
      Scope owned rest K₀ { K with kmem := K.kmem.deny } obj) ∨
    ∃ b n, b < 25600 ∧ 1 ≤ n ∧ size ≤ 4096 * n ∧
      K.kzalloc size = (blockAddr b, { K with kmem := K.kmem.take b n size }) ∧
      Scope owned rest K₀ { K with kmem := K.kmem.take b n size }
        (Function.update obj i (some (b, n))) := by
  rcases kzalloc_sound h.tidy.kernel hsize hs.short with he | ⟨b, n, hb, hlt, hrun, hle, he⟩
  · refine .inl ⟨?_, h.update rfl rfl fun b _ => ⟨.refl _ b, ⟨rfl, rfl, rfl⟩⟩⟩
    unfold Kernel.kzalloc
    rw [he]
  · refine .inr ⟨b, n, hlt, by omega, hle, ?_, h.take hi (by omega) hb hrun hle⟩
    unfold Kernel.kzalloc
    rw [he]

/-- Free blocks become a family of allocations at once. -/
theorem Scope.extend (h : Scope owned rest K₀ K obj) {new : ι → Option (Nat × Nat)}
    (hfiles : K'.files = K.files) (hkernel : K'.kmem.heap.Kernel)
    (hnone : ∀ i, new i ≠ none → obj i = none)
    (hchain : ∀ i b n, new i = some (b, n) → b + n ≤ 25600 ∧ IsChain K'.entries 25600 b n)
    (hfree : ∀ i j, InChunk (new i) j → Free (K.entries j))
    (hinj : ∀ i i' b n n', new i = some (b, n) → new i' = some (b, n') → i = i')
    (hothers : ∀ j, (∀ i, ¬ InChunk (new i) j) → K'.entries j = K.entries j)
    (hrest : ∀ b, rest b → SameBlock K.mem K'.mem b ∧ SameStructs K K' b) :
    Scope owned rest K₀ K' fun i => (new i).or (obj i) := by
  have hkeep : ∀ j, ¬ Free (K.entries j) → K'.entries j = K.entries j := fun j hj =>
    hothers j fun i hi => hj (hfree i j hi)
  -- a chunk of the extended family is a new one or one from before
  have hcases : ∀ {i b n}, (new i).or (obj i) = some (b, n) →
      new i = some (b, n) ∨ (new i = none ∧ obj i = some (b, n)) := fun {i b n} he => by
    cases hi : new i with
    | none =>
      rw [hi, Option.none_or] at he
      exact .inr ⟨rfl, he⟩
    | some c =>
      rw [hi, Option.some_or] at he
      exact .inl he
  have hold : ∀ {i b n}, obj i = some (b, n) → (new i).or (obj i) = some (b, n) :=
    fun {i b n} he => by
      by_cases hi : new i = none
      · rw [hi, Option.none_or, he]
      · rw [hnone i hi] at he
        cases he
  have hne : ∀ {i i' b n n'}, new i = some (b, n) → obj i' = some (b, n') → False :=
    fun {i i' b n n'} hi hi' => by
      have hpos := (hchain i b n hi).2.pos
      refine h.not_free hi' (Nat.le_refl b) ?_ (hfree i b ⟨b, n, hi, Nat.le_refl b, by omega⟩)
      have := (h.pos hi').1
      omega
  refine ⟨⟨hkernel, fun j hj hf => ?_, fun j hj => ?_⟩, fun i b n hi => ?_,
    fun i₁ i₂ b n₁ n₂ h₁ h₂ => ?_, fun i j hj => ?_, fun j hj => ?_, fun j hj => ?_,
    fun j hj hf => ?_⟩
  · by_cases hin : ∃ i, InChunk (new i) j
    · obtain ⟨i, b, n, hi, h1, h2⟩ := hin
      exact absurd hf ((hchain i b n hi).2.not_free h1 h2 hj)
    · have he : K'.entries j = K.entries j := hothers j fun i hi => hin ⟨i, hi⟩
      change Free (K'.entries j) at hf
      change K'.entries j = entryFree
      rw [he] at hf ⊢
      exact h.tidy.clean j hj hf
  · rw [hfiles] at hj
    obtain ⟨hlt, hf⟩ := h.tidy.owned j hj
    refine ⟨hlt, ?_⟩
    change ¬ Free (K'.entries j)
    rw [hkeep j hf]
    exact hf
  · rcases hcases hi with hi | ⟨-, hi⟩
    · exact hchain i b n hi
    · obtain ⟨hle, hc⟩ := h.chain i b n hi
      exact ⟨hle, hc.congr fun j hj hj' _ => hkeep j (h.not_free hi hj hj')⟩
  · rcases hcases h₁ with h₁ | ⟨-, h₁⟩
    · rcases hcases h₂ with h₂ | ⟨-, h₂⟩
      · exact hinj _ _ _ _ _ h₁ h₂
      · exact (hne h₁ h₂).elim
    · rcases hcases h₂ with h₂ | ⟨-, h₂⟩
      · exact (hne h₂ h₁).elim
      · exact h.inj _ _ _ _ _ h₁ h₂
  · rw [hfiles]
    obtain ⟨b, n, hi, h1, h2⟩ := hj
    rcases hcases hi with hi | ⟨-, hi⟩
    · have hf := hfree i j ⟨b, n, hi, h1, h2⟩
      exact ⟨fun hr => (h.taken j hr).2.1 hf, fun ho => (h.tidy.owned j ho).2 hf⟩
    · exact h.apart i j ⟨b, n, hi, h1, h2⟩
  · obtain ⟨hlt, hf, ho⟩ := h.taken j hj
    rw [hfiles, hkeep j hf]
    exact ⟨hlt, hf, ho⟩
  · obtain ⟨he, hm, hstruct⟩ := h.same j hj
    obtain ⟨hm', hstruct'⟩ := hrest j hj
    exact ⟨(hkeep j (h.taken j hj).2.1).trans he, hm.trans hm', hstruct.trans hstruct'⟩
  · rw [hfiles]
    by_cases hin : ∃ i, InChunk (new i) j
    · obtain ⟨i, b, n, hi, hj'⟩ := hin
      refine .inr (.inr ⟨i, b, n, ?_, hj'⟩)
      rw [hi, Option.some_or]
    · rw [hothers j fun i hi => hin ⟨i, hi⟩] at hf
      rcases h.cover j hj hf with hr | ho | ⟨i, b, n, hi, hj'⟩
      · exact .inl hr
      · exact .inr (.inl ho)
      · exact .inr (.inr ⟨i, b, n, hold hi, hj'⟩)

end

/-! ## Page directories -/

/-- The block at an address of the heap. -/
def blockOf (p : Nat) : Nat := (p - 0x01000000) / 4096

theorem InWindow.blockAddr {p : Nat} (h : InWindow p) : blockOf p < 25600 ∧ blockAddr (blockOf p) = p := by
  have hal := h.aligned
  have hlo := h.lo
  have hhi := h.hi
  unfold blockOf Pandora.blockAddr
  omega

/-- The allocations of `paging_new_4gb`. -/
def pagingChunks (chunk dir : Nat) (table : Nat → Nat) : Role → Option (Nat × Nat)
  | .chunk => some (blockOf chunk, 1)
  | .directory => some (blockOf dir, 1)
  | .table i => if i < 1024 then some (blockOf (table i), 1) else none
  | _ => none

section

variable {σ : Type} {owned : σ → Nat → Prop} {rest : Nat → Prop} {K₀ K K' : Kernel σ}
  {obj : Role → Option (Nat × Nat)} {chunk dir f flags : Nat} {table : Nat → Nat}

theorem NewPaging.chunk_ne_table {k k' : Kmem} (hp : NewPaging k k' flags chunk dir table) :
    ∀ i < 1024, chunk ≠ table i := fun i hi he => by
  have := hp.chunkOf.apart i hi
  omega

/-- Every chunk is one of the 1026 blocks. -/
theorem pagingChunks_cases {k k' : Kmem} (hp : NewPaging k k' flags chunk dir table) {r : Role}
    {b n : Nat} (hr : pagingChunks chunk dir table r = some (b, n)) :
    n = 1 ∧ b < 25600 ∧ ((r = .directory ∧ blockAddr b = dir) ∨ (r = .chunk ∧ blockAddr b = chunk) ∨
      ∃ j < 1024, r = .table j ∧ blockAddr b = table j) := by
  have hw : ∀ {p b n}, InWindow p → some (blockOf p, 1) = some (b, n) →
      n = 1 ∧ b < 25600 ∧ blockAddr b = p := fun {p b n} hp he => by
    obtain ⟨hlt, heq⟩ := hp.blockAddr
    cases he
    exact ⟨rfl, hlt, heq⟩
  cases r with
  | chunk =>
    obtain ⟨hn, hb, he⟩ := hw hp.chunkWindow hr
    exact ⟨hn, hb, .inr (.inl ⟨rfl, he⟩)⟩
  | directory =>
    obtain ⟨hn, hb, he⟩ := hw hp.pageDir.dirWindow hr
    exact ⟨hn, hb, .inl ⟨rfl, he⟩⟩
  | table i =>
    unfold pagingChunks at hr
    dsimp only at hr
    by_cases hi : i < 1024
    · rw [if_pos hi] at hr
      obtain ⟨hn, hb, he⟩ := hw (hp.pageDir.window i hi) hr
      exact ⟨hn, hb, .inr (.inr ⟨i, hi, rfl, he⟩)⟩
    · rw [if_neg hi] at hr
      cases hr
  | _ => cases hr

/-- A new directory takes free blocks. -/
theorem Scope.newPaging (h : Scope owned rest K₀ K obj) {k' : Kmem}
    (hp : NewPaging K.kmem k' flags chunk dir table)
    (hnone : ∀ r, pagingChunks chunk dir table r ≠ none → obj r = none) :
    Scope owned rest K₀ { K with kmem := k' }
      fun r => (pagingChunks chunk dir table r).or (obj r) := by
  have hfree : ∀ r j, InChunk (pagingChunks chunk dir table r) j →
      Free (K.entries j) ∧ k'.heap.table.entries j = chainEntry 1 0 := fun r j hj => by
    obtain ⟨b, n, hr, h1, h2⟩ := hj
    obtain ⟨rfl, hb, hor⟩ := pagingChunks_cases hp hr
    obtain rfl : j = b := by omega
    refine hp.taken j hb ?_
    rcases hor with ⟨-, he⟩ | ⟨-, he⟩ | ⟨i, hi, -, he⟩
    · exact .inl he
    · exact .inr (.inl he)
    · exact .inr (.inr ⟨i, hi, he⟩)
  -- where a block of the new directory is
  have hin : ∀ {p b r}, InWindow p → blockAddr b = p →
      pagingChunks chunk dir table r = some (blockOf p, 1) →
      InChunk (pagingChunks chunk dir table r) b := fun {p b r} hw he hr => by
    obtain ⟨-, heq⟩ := hw.blockAddr
    obtain rfl : b = blockOf p := blockAddr_inj.1 (he.trans heq.symm)
    exact ⟨_, 1, hr, by omega, by omega⟩
  have htable : ∀ i < 1024, pagingChunks chunk dir table (.table i) = some (blockOf (table i), 1) :=
    fun i hi => if_pos hi
  have hout : ∀ j, (∀ r, ¬ InChunk (pagingChunks chunk dir table r) j) →
      blockAddr j ≠ dir ∧ blockAddr j ≠ chunk ∧ ∀ i < 1024, blockAddr j ≠ table i := fun j hj =>
    ⟨fun he => hj .directory (hin hp.pageDir.dirWindow he rfl),
      fun he => hj .chunk (hin hp.chunkWindow he rfl),
      fun i hi he => hj (.table i) (hin (hp.pageDir.window i hi) he (htable i hi))⟩
  refine h.extend rfl hp.kernel hnone (fun r b n hr => ?_) (fun r j hj => (hfree r j hj).1)
    (fun r r' b n n' hr hr' => ?_) (fun j hj => ?_) fun b hb => ⟨fun x hx hx' => ?_, rfl, rfl, rfl⟩
  · obtain ⟨rfl, hb, -⟩ := pagingChunks_cases hp hr
    refine ⟨by omega, Nat.le_refl 1, hb, fun i hi _ => ?_⟩
    obtain rfl : i = 0 := by omega
    exact (hfree r b ⟨b, 1, hr, Nat.le_refl b, by omega⟩).2
  · obtain ⟨-, -, hor⟩ := pagingChunks_cases hp hr
    obtain ⟨-, -, hor'⟩ := pagingChunks_cases hp hr'
    rcases hor with ⟨rfl, he⟩ | ⟨rfl, he⟩ | ⟨i, hi, rfl, he⟩ <;>
      rcases hor' with ⟨rfl, he'⟩ | ⟨rfl, he'⟩ | ⟨i', hi', rfl, he'⟩
    · rfl
    · exact absurd (he'.symm.trans he) hp.chunk_ne_dir
    · exact absurd (he'.symm.trans he) (hp.pageDir.ne_dir i' hi')
    · exact absurd (he.symm.trans he') hp.chunk_ne_dir
    · rfl
    · exact absurd (he.symm.trans he') (hp.chunk_ne_table i' hi')
    · exact absurd (he.symm.trans he') (hp.pageDir.ne_dir i hi)
    · exact absurd (he'.symm.trans he) (hp.chunk_ne_table i hi)
    · rw [hp.pageDir.inj i hi i' hi' (he.symm.trans he')]
  · obtain ⟨hd, hc, ht⟩ := hout j hj
    exact hp.others j hd hc ht
  · -- the block is none of those that were free
    have hb' := h.taken b hb
    obtain ⟨hd, hc, ht⟩ := hout b fun r hr => hb'.2.1 (hfree r b hr).1
    have hwin := inWindow_blockAddr hb'.1
    have hlt := blockAddr_lt hb'.1
    refine hp.outside x (by omega) ?_ ?_ ?_ fun i hi => ?_
    · have := hwin.lo
      omega
    · have := hwin.disjoint hp.pageDir.dirWindow hd
      omega
    · have := hwin.disjoint hp.chunkWindow hc
      omega
    · have := hwin.disjoint (hp.pageDir.window i hi) (ht i hi)
      omega

/-! ## Mapping -/

/-- `paging_map_to` maps the range or rejects the call. -/
theorem Kernel.mapTo_cases {process : Nat} (h : ProcessDir K process dir f table)
    (virt phys physEnd : Nat) (hv : virt % 4096 = 0) (hvlt : virt < 2 ^ 32)
    (helt : physEnd < 2 ^ 32) (hf : flags < 4096) :
    ∃ res K' M, K.mapTo process virt phys physEnd flags = (res, K') ∧ K.MemOnly K' ∧
      Mapped K.mem K'.mem dir f table M ∧
      ((0 ≤ res ∧ phys % 4096 = 0 ∧ physEnd % 4096 = 0 ∧ phys ≤ physEnd ∧
          M = mapped (pageEntry K.mem table) (virt / 4096) phys ((physEnd - phys) / 4096) flags) ∨
        (res < 0 ∧ M = pageEntry K.mem table)) := by
  by_cases hok : virt % 4096 = 0 ∧ phys % 4096 = 0 ∧ physEnd % 4096 = 0 ∧ phys ≤ physEnd
  · obtain ⟨-, hp, he, hle⟩ := hok
    obtain ⟨K', hr, hk, hm⟩ := Kernel.mapTo_spec h hv hp he hle hvlt helt hf
    exact ⟨allOk, K', _, hr, hk, hm, .inl ⟨Int.le_refl 0, hp, he, hle, rfl⟩⟩
  · obtain ⟨task, htask⟩ : ∃ task, (K.processAt process).task = task := ⟨_, rfl⟩
    obtain ⟨pd, hpd⟩ : ∃ pd, (K.queue.task task).pageDirectory = pd := ⟨_, rfl⟩
    have hmem : ((K.follow task).follow pd).mem = K.mem := by
      unfold Kernel.follow Kernel.mem
      rw [follow_mem, follow_mem]
    have hpd' : ((K.follow task).queue.task task).pageDirectory = pd := hpd
    refine ⟨-einvarg, { K with kmem := { ((K.follow task).follow pd).kmem with mem := K.mem } },
      pageEntry K.mem table, ?_, ⟨rfl, ?_⟩, .refl h.pageDir, .inr ⟨by decide, rfl⟩⟩
    · unfold Kernel.mapTo
      dsimp only
      rw [htask, hpd', hmem, pagingMapTo_rejected hok]
      rfl
    · unfold Kernel.follow
      dsimp only
      rw [follow_heap, follow_heap]

/-- Mapping changes no block but the tables. -/
theorem Mapped.sameBlock {m m' : Mem} {M : Nat → Nat} {b : Nat}
    (hm : Mapped m m' dir f table M) (hb : b < 25600) (hne : ∀ i < 1024, blockAddr b ≠ table i) :
    SameBlock m m' b := fun x hx hx' => hm.outside x fun i hi => by
  have := (inWindow_blockAddr hb).disjoint (hm.pageDir.window i hi) (hne i hi)
  omega

theorem Scope.memOnly (h : Scope owned rest K₀ K obj) (hk : K.MemOnly K')
    (hm : ∀ b, rest b → SameBlock K.mem K'.mem b) : Scope owned rest K₀ K' obj := by
  refine h.update hk.heap (by rw [hk.eq]) fun b hb => ⟨hm b hb, ?_⟩
  rw [hk.eq]
  exact ⟨rfl, rfl, rfl⟩

/-- A table in scope is no block of the rest. -/
theorem Scope.table_ne (h : Scope owned rest K₀ K obj) (hpd : PageDir K.mem dir f table)
    (hobj : ∀ i < 1024, obj (.table i) = some (blockOf (table i), 1)) {b : Nat} (hb : rest b) :
    ∀ i < 1024, blockAddr b ≠ table i := fun i hi he => by
  obtain ⟨-, heq⟩ := (hpd.window i hi).blockAddr
  exact h.ne_of_rest (hobj i hi) hb (blockAddr_inj.1 (he.trans heq.symm))

/-! ## Tasks -/

/-- Linking a task changes nothing but links. -/
theorem taskLink_field {α : Type} (g : Task → α) (hnext : ∀ v a, g { v with next := a } = g v)
    (hprev : ∀ v a, g { v with prev := a } = g v) (q : TaskQueue) (t a : Nat) :
    g ((taskLink q t).task a) = g (q.task a) := by
  have hset : ∀ (q : TaskQueue) (t : Nat) (v : Task), g v = g (q.task t) →
      g ((q.set t v).task a) = g (q.task a) := fun q t v hv => by
    rw [TaskQueue.set_task]
    split
    · rename_i he
      rw [he, hv]
    · rfl
  unfold taskLink
  split
  · rfl
  · exact (hset (q.setNext q.tail t) t { (q.setNext q.tail t).task t with prev := q.tail }
      (hprev _ _)).trans (hset q q.tail { q.task q.tail with next := t } (hnext _ _))

theorem taskLink_pageDirectory (q : TaskQueue) (t a : Nat) :
    ((taskLink q t).task a).pageDirectory = (q.task a).pageDirectory :=
  taskLink_field Task.pageDirectory (fun _ _ => rfl) (fun _ _ => rfl) q t a

/-- Only the memory and the task list have changed. -/
def Kernel.TaskOnly (K K' : Kernel σ) : Prop := K' = { K with kmem := K'.kmem, queue := K'.queue }

/-- A new task has a directory of its own. -/
structure NewTask (K' : Kernel σ) (task chunk dir : Nat) (table : Nat → Nat) : Prop where
  pageDirectory : (K'.queue.task task).pageDirectory = chunk
  pageDir : PageDir K'.mem dir
    (pagingIsPresent ||| pagingAccessFromAll ||| pagingIsWriteable) table
  chunkOf : ChunkOf K'.mem chunk dir table
  identity : ∀ p < 2 ^ 20,
    pageEntry K'.mem table p = 4096 * p ||| (pagingIsPresent ||| pagingAccessFromAll)
  window : InWindow chunk

/-- `task_init` that ends without a fault. -/
theorem taskInit_sound {task process : Nat} (hk : K.kmem.heap.Kernel)
    (hs : (taskInit K task process).2.kmem.Sound) :
    ∃ K' k' v dir, ∃ table : Nat → Nat, taskInit K task process = (allOk, K') ∧
      K' = { K with kmem := k', queue := K.queue.set task v } ∧
      NewPaging K.kmem k' (pagingIsPresent ||| pagingAccessFromAll) v.pageDirectory dir table := by
  have hflags : pagingIsPresent ||| pagingAccessFromAll < 4096 := by decide
  unfold taskInit at hs ⊢
  rcases pagingNew4gb_cases hk hflags with ⟨chunk, k', dir, table, he, hp⟩ | ⟨-, k', he, hfault⟩
  · have hne : chunk ≠ 0 := by
      have := hp.chunkWindow.lo
      omega
    rw [he] at hs ⊢
    dsimp only at hs ⊢
    rw [if_neg hne] at hs ⊢
    obtain ⟨K₁, hK₁⟩ : ∃ K₁, { K with kmem := k' } = K₁ := ⟨_, rfl⟩
    rw [hK₁] at hs ⊢
    have hr₁ : (K₁.follow process).kmem.Sound := by
      refine Kmem.Rises.sound ?_ hs
      cases ((K₁.follow process).processAt process).filetype
      · exact (Kernel.follow_rises _ _).trans (Kernel.follow_rises _ _)
      · exact .refl _
    rw [(Kernel.follow_sound hr₁).2] at hs ⊢
    cases hft : (K₁.processAt process).filetype
    · rw [hft] at hs
      dsimp only at hs ⊢
      have hr₂ : (K₁.follow (K₁.processAt process).ptr).kmem.Sound :=
        (Kernel.follow_rises _ _).sound hs
      rw [(Kernel.follow_sound hr₂).2] at hs ⊢
      have hr₃ : (K₁.follow (K₁.elfFileAt (K₁.processAt process).ptr).elfMemory).kmem.Sound := hs
      rw [(Kernel.follow_sound hr₃).2]
      subst hK₁
      exact ⟨_, k', _, dir, table, rfl, rfl, hp⟩
    · dsimp only
      subst hK₁
      exact ⟨_, k', _, dir, table, rfl, rfl, hp⟩
  · rw [he] at hs
    dsimp only at hs
    rw [if_pos rfl] at hs
    have := hs.fault
    change k'.fault = false at this
    rw [hfault] at this
    cases this

/-- No task yet. -/
structure Untasked (obj : Role → Option (Nat × Nat)) : Prop where
  task : obj .task = none
  chunk : obj .chunk = none
  directory : obj .directory = none
  table : ∀ i, obj (.table i) = none

/-- The family `obj` with the allocations of `task_new`. -/
def withTask (obj : Role → Option (Nat × Nat)) (t n chunk dir : Nat) (table : Nat → Nat) :
    Role → Option (Nat × Nat) :=
  fun r => (pagingChunks chunk dir table r).or (Function.update obj .task (some (t, n)) r)

/-- `task_new` that ends without a fault. -/
theorem Scope.taskNew (h : Scope owned rest K₀ K obj) {process : Nat} (hnone : Untasked obj)
    (hs : (taskNew K process).2.kmem.Sound) :
    ∃ t n K' chunk dir, ∃ table : Nat → Nat, taskNew K process = (blockAddr t, K') ∧ t < 25600 ∧
      K.TaskOnly K' ∧ NewTask K' (blockAddr t) chunk dir table ∧
      Scope owned rest K₀ K' (withTask obj t n chunk dir table) := by
  have hz := (taskNew_kzalloc_rises K process).sound hs
  rcases h.kzalloc hnone.task (by decide) (by decide) hz with ⟨he, -⟩ | ⟨t, n, ht, hn, -, he, h₁⟩
  · exact absurd (congrArg Prod.fst he) (taskNew_kzalloc_ne hs)
  · obtain ⟨K₁, hK₁⟩ : ∃ K₁, { K with kmem := K.kmem.take t n sizeofTask } = K₁ := ⟨_, rfl⟩
    unfold Pandora.taskNew at hs ⊢
    rw [hK₁] at he h₁
    rw [he] at hs ⊢
    dsimp only at hs ⊢
    rw [if_neg (blockAddr_ne_zero t)] at hs ⊢
    have hs₂ : (taskInit K₁ (blockAddr t) process).2.kmem.Sound := by
      refine Kmem.Rises.sound ?_ hs
      split
      · exact taskFree_rises _ _
      · dsimp only
        split
        · exact .refl _
        · exact Kernel.follow_rises _ _
    obtain ⟨K₂, k', v, dir, table, hi, hK₂, hp⟩ := taskInit_sound h₁.tidy.kernel hs₂
    rw [hi] at hs ⊢
    dsimp only at hs ⊢
    rw [if_neg (show ¬ allOk < 0 by decide)] at hs ⊢
    dsimp only at hs ⊢
    have htail : (if K₂.queue.head = 0 then K₂ else K₂.follow K₂.queue.tail) = K₂ := by
      split
      · rfl
      · rename_i hhead
        rw [if_neg hhead] at hs
        exact (Kernel.follow_sound hs).2
    rw [htail]
    refine ⟨t, n, _, v.pageDirectory, dir, table, rfl, ht, ?_, ⟨?_, ?_, ?_, ?_, ?_⟩, ?_⟩
    · subst hK₂ hK₁
      rfl
    · rw [taskLink_pageDirectory]
      subst hK₂
      dsimp only
      rw [TaskQueue.set_task, if_pos rfl]
    · subst hK₂
      exact hp.pageDir
    · subst hK₂
      exact hp.chunkOf
    · subst hK₂
      exact hp.identity
    · exact hp.chunkWindow
    · -- the links are in the task and in other tasks, which keep their directories
      have h₂ : Scope owned rest K₀ { K₁ with kmem := k' }
          (withTask obj t n v.pageDirectory dir table) := by
        refine h₁.newPaging hp fun r hr => ?_
        cases r with
        | chunk => exact hnone.chunk
        | directory => exact hnone.directory
        | table i => exact hnone.table i
        | _ => exact absurd rfl hr
      refine h₂.update ?_ ?_ fun b hb => ⟨?_, ?_, ?_, ?_⟩
      · subst hK₂
        rfl
      · subst hK₂
        rfl
      · subst hK₂
        exact .refl _ b
      · subst hK₂
        rfl
      · subst hK₂
        rfl
      · rw [taskLink_pageDirectory]
        subst hK₂
        dsimp only
        rw [TaskQueue.set_task, if_neg]
        intro hbt
        exact h₁.ne_of_rest (Function.update_self _ _ _) hb (blockAddr_inj.1 hbt)

end

end Pandora
