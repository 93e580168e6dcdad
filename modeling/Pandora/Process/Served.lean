import Mathlib.Order.Interval.Finset.Nat
import Pandora.Process.Live

/-!
# Loads that find room

Where the heap is free behind its first blocks (`Kmem.Room`), every allocation of a load is served.
`wholeFile` is a file layer with one file; a small file with program headers that fit is loaded from it
without a fault (`processLoad_served`).
-/

namespace Pandora

open ByteMem

/-! ## Allocations -/

section

variable {k : Kmem} {n size b : Nat}

theorem Kmem.Sound.take (h : k.Sound) (b n size : Nat) : (k.take b n size).Sound :=
  ⟨h.fault, h.short⟩

theorem Kmem.Sound.mem (h : k.Sound) (m : Mem) : Kmem.Sound { k with mem := m } :=
  ⟨h.fault, h.short⟩

theorem Kmem.Room.mem (h : k.Room n) (m : Mem) : Kmem.Room { k with mem := m } n :=
  ⟨h.kernel, h.free, h.denied⟩

/-- A request takes blocks in front of the free ones, or the first of these. -/
theorem Kmem.Room.served (h : k.Room n) (h1 : 1 ≤ size) (h2 : size ≤ 2 ^ 32 - 4096)
    (hn : n + blocksFor size ≤ 25600) :
    ∃ b ≤ n, Pandora.kzalloc k size = (blockAddr b, k.take b (blocksFor size) size) ∧
      FreeRun k.heap.table.entries b (blocksFor size) ∧
      (k.take b (blocksFor size) size).Room (n + blocksFor size) := by
  have hpos := blocksFor_pos h1
  have hrun : FreeRun k.heap.table.entries n (blocksFor size) := fun i hi =>
    h.free (n + i) (by omega) (by omega)
  have hhas : HasRun k.heap.table.entries 25600 (blocksFor size) := ⟨n, hn, hrun⟩
  have hshort : ¬ k.heap.RunsShort (blocksFor size) := fun hs => by
    have hno := hs.1
    rw [h.kernel.total] at hno
    exact hno hhas
  rcases kzalloc_served h.kernel h1 h2 hshort with ⟨b, hb, hfree, hfirst, he⟩ | ⟨-, hno⟩
  · have hle : b ≤ n := Nat.le_of_not_lt fun hlt => hfirst n hlt hrun
    refine ⟨b, hle, he, hfree, h.kernel.markBlocksTaken b _, fun j hj hj' => ?_, h.denied⟩
    rw [take_heap, markBlocksTaken_entries hpos (by omega), if_neg (by omega)]
    exact h.free j (by omega) hj'
  · exact absurd hhas hno

/-- The same for a kernel. -/
theorem Kernel.served {σ : Type} {K : Kernel σ} (h : K.kmem.Room n) (h1 : 1 ≤ size)
    (h2 : size ≤ 2 ^ 32 - 4096) (hn : n + blocksFor size ≤ 25600) :
    ∃ b ≤ n, K.kzalloc size =
        (blockAddr b, { K with kmem := K.kmem.take b (blocksFor size) size }) ∧
      FreeRun K.entries b (blocksFor size) ∧
      (K.kmem.take b (blocksFor size) size).Room (n + blocksFor size) := by
  obtain ⟨b, hb, he, hfree, hroom⟩ := h.served h1 h2 hn
  refine ⟨b, hb, ?_, hfree, hroom⟩
  unfold Kernel.kzalloc
  rw [he]

theorem pagingNew4gb_loop_room {directory flags : Nat} : ∀ (m i offset n : Nat) (k : Kmem),
    k.Room n → n + m ≤ 25600 → (pagingNew4gb.loop directory flags m i offset k).Room (n + m)
  | 0, _, _, _, _, h, _ => h
  | m + 1, i, offset, n, k, h, hn => by
    obtain ⟨b, k', he, -, hroom⟩ := h.kzalloc (by omega) 4096 (by decide) (by decide)
    unfold pagingNew4gb.loop
    rw [he, show n + (m + 1) = n + 1 + m by omega]
    exact pagingNew4gb_loop_room m _ _ _ _ (((hroom.follow _).follow _).mem _) (by omega)

theorem pagingNew4gb_room {flags : Nat} (h : k.Room n) (hn : n + 1026 ≤ 25600) :
    (pagingNew4gb k flags).2.Room (n + 1026) := by
  obtain ⟨b, k₁, he₁, -, hroom₁⟩ := h.kzalloc (by omega) 4096 (by decide) (by decide)
  have hroom₂ : (pagingNew4gb.loop (blockAddr b) flags 1024 0 0 k₁).Room (n + 1 + 1024) :=
    pagingNew4gb_loop_room 1024 0 0 (n + 1) k₁ hroom₁ (by omega)
  unfold pagingNew4gb
  rw [he₁]
  dsimp only
  generalize pagingNew4gb.loop (blockAddr b) flags 1024 0 0 k₁ = k₂ at hroom₂ ⊢
  obtain ⟨c, k₃, he₃, -, hroom₃⟩ := hroom₂.kzalloc (by omega) 4 (by decide) (by decide)
  rw [he₃]
  exact (hroom₃.follow _).mem _

/-- All the blocks behind the first `n` are free. -/
theorem Kmem.Room.card (h : k.Room n) : 25600 - n ≤ (freeBlocks k.heap).card :=
  le_freeBlocks h.free

end

/-! ## One file -/

/-- A file layer with one file, of the contents `l`, that reads no more than it is asked for. -/
def wholeFile (l : List UInt8) : FileLayer Unit where
  fopen := fun _ s k => (1, s, k)
  fstat := fun _ _ _ => (0, l.length)
  fread := fun ptr size nmemb _ s k =>
    if ptr = 0 ∨ size * nmemb = 0 then (-einvarg, s, k)
    else (nmemb, s, { k with mem := writeBytes k.mem ptr (l.take (size * nmemb)) })
  fclose := fun _ s k => (0, s, k)

/-- It owns no blocks. -/
def noBlocks : Unit → Nat → Prop := fun _ _ => False

theorem LayerCall.refl {σ : Type} {owned : σ → Nat → Prop} {written : Nat → Prop} (s : σ)
    (k : Kmem) : LayerCall owned written s k s k where
  tidy := id
  others := fun _ _ _ => Iff.rfl
  kept := fun _ _ _ _ _ => ⟨rfl, fun _ _ _ _ => rfl⟩

theorem wholeFile_sound (l : List UInt8) : (wholeFile l).Sound noBlocks where
  rises := ⟨fun _ _ k => .refl k, fun ptr size nmemb _ _ k => by
    unfold wholeFile
    dsimp only
    split
    · exact .refl k
    · exact .mem k _, fun _ _ k => .refl k⟩
  fopen := fun _ s k _ => .refl s k
  fread := fun ptr size nmemb _ s k _ => by
    unfold wholeFile
    dsimp only
    split
    · exact .refl s k
    · rename_i hptr
      refine ⟨fun ht => ⟨ht.kernel, ht.clean, ht.owned⟩, fun _ _ _ => Iff.rfl,
        fun _ _ _ _ _ => ⟨rfl, fun x _ _ hw => writeBytes_apply_of_outside ?_⟩⟩
      rw [List.length_take]
      omega
  fclose := fun _ s k _ => .refl s k

theorem wholeFile_regular {l : List UInt8} (h : l.length < 2 ^ 32) : (wholeFile l).Regular where
  fstat_le := fun _ _ _ => Int.le_refl 0
  size_lt := fun _ _ _ => h
  fread_zero := fun ptr nmemb _ s k =>
    ⟨-einvarg, by decide, if_pos (.inr (Nat.zero_mul nmemb))⟩

/-! ## Loading -/

section

variable {K : Kernel Unit} {l : List UInt8} {n : Nat}

/-- `elf_load` of a small file that is accepted. -/
theorem elfLoad_served (filename : List UInt8) (hroom : K.kmem.Room n) (hs : K.kmem.Sound) (hn : n + 2 ≤ 25600)
    (hi : ElfImage l) (hle : l.length ≤ 4096) :
    ∃ be bi K', elfLoad (wholeFile l) K filename = (allOk, blockAddr be, K') ∧ be < 25600 ∧
      bi < 25600 ∧ K.FileOnly K' ∧ K'.kmem.Room (n + 2) ∧ K'.kmem.Sound ∧
      K'.imageOf (blockAddr be) = blockAddr bi ∧ BytesAt K'.mem (blockAddr bi) l ∧
      ¬ Free (K'.entries bi) := by
  have hlen := hi.header
  have hone : blocksFor l.length = 1 := by
    unfold blocksFor
    omega
  obtain ⟨be, hbe, hze, -, hroom₁⟩ := Kernel.served hroom (show 1 ≤ sizeofElfFile by decide)
    (by decide) (show n + 1 ≤ 25600 by omega)
  obtain ⟨K₁, hK₁⟩ : ∃ K₁, Kernel.setElfFile { K with
    kmem := K.kmem.take be (blocksFor sizeofElfFile) sizeofElfFile } (blockAddr be) {} = K₁ := ⟨_, rfl⟩
  have hroomK₁ : K₁.kmem.Room (n + 1) := by
    subst hK₁
    exact hroom₁
  have hnew : elfFileNew K = (blockAddr be, K₁) := by
    unfold elfFileNew
    rw [hze]
    dsimp only
    rw [if_neg (blockAddr_ne_zero be), hK₁]
  obtain ⟨bi, hbi, hzi, -, hroom₂⟩ := Kernel.served hroomK₁ (show 1 ≤ l.length by omega)
    (by omega) (by omega)
  rw [hone] at hzi hroom₂
  obtain ⟨K₂, hK₂⟩ : ∃ K₂, { K₁ with kmem := K₁.kmem.take bi 1 l.length } = K₂ := ⟨_, rfl⟩
  rw [hK₂] at hzi
  obtain ⟨K₃, hK₃⟩ : ∃ K₃, K₂.setElfFile (blockAddr be)
    { K₂.elfFileAt (blockAddr be) with elfMemory := blockAddr bi } = K₃ := ⟨_, rfl⟩
  obtain ⟨K₄, hK₄⟩ : ∃ K₄ : Kernel Unit, { K₃ with
    kmem := { K₃.kmem with mem := writeBytes K₃.mem (blockAddr bi) l } } = K₄ := ⟨_, rfl⟩
  have hread : K₃.fread (wholeFile l) (blockAddr bi) l.length 1 1 = (1, K₄) := by
    have hne := blockAddr_ne_zero bi
    unfold Kernel.fread wholeFile
    dsimp only
    rw [if_neg (by omega), Nat.mul_one, List.take_length]
    exact congrArg (Prod.mk _) hK₄
  have himage : K₄.imageOf (blockAddr be) = blockAddr bi := by
    subst hK₄ hK₃
    unfold Kernel.imageOf Kernel.setElfFile
    dsimp only
    rw [Function.update_self]
  have hbytes : BytesAt K₄.mem (blockAddr bi) l := by
    subst hK₄
    exact bytesAt_writeBytes _ _ _
  have hkmem₄ : K₄.kmem = { K₁.kmem.take bi 1 l.length with
      mem := writeBytes K₃.mem (blockAddr bi) l } := by
    subst hK₄ hK₃ hK₂
    rfl
  have hroom₄ : K₄.kmem.Room (n + 2) := by
    rw [hkmem₄]
    exact hroom₂.mem _
  have hsound₄ : K₄.kmem.Sound := by
    have hs₁ : K₁.kmem.Sound := by
      subst hK₁
      exact hs.take _ _ _
    rw [hkmem₄]
    exact (hs₁.take _ _ _).mem _
  have htaken : ¬ Free (K₄.entries bi) := by
    unfold Kernel.entries
    rw [hkmem₄]
    dsimp only
    rw [take_heap, markBlocksTaken_one _ (by omega), if_pos rfl]
    exact chainEntry_not_free 1 0
  -- the headers are accepted
  have hbi_lt := blockAddr_lt (b := bi) (by omega)
  have hvalid : elfValidateLoaded K₄.mem (blockAddr bi) = allOk :=
    (hbytes.sameHeaders (by omega) hi).validate.trans hi.accepted
  obtain ⟨v, hv, hloaded⟩ : ∃ v, v.elfMemory = blockAddr bi ∧
      elfProcessLoaded K₄ (blockAddr be) = (allOk, K₄.setElfFile (blockAddr be) v) := by
    have himage' : (K₄.elfFileAt (blockAddr be)).elfMemory = blockAddr bi := himage
    refine ⟨_, (elfProcessPheaders_elfMemory K₄.mem (ePhnum K₄.mem (blockAddr bi)) 0 _).trans himage',
      ?_⟩
    unfold elfProcessLoaded
    dsimp only
    rw [Kernel.follow_blockAddr (by omega), himage', Kernel.follow_blockAddr (by omega), hvalid,
      if_neg (by decide)]
  refine ⟨be, bi, K₄.setElfFile (blockAddr be) v, ?_, by omega, by omega, ?_, hroom₄, hsound₄, ?_,
    hbytes, htaken⟩
  · have hopened : elfLoad.opened (wholeFile l) K₁ (blockAddr be) 1 =
        (allOk, K₄.setElfFile (blockAddr be) v) := by
      have hstat : K₁.fstat (wholeFile l) 1 = (0, l.length) := rfl
      unfold elfLoad.opened
      rw [hstat]
      dsimp only
      rw [if_neg (Int.lt_irrefl 0), hzi]
      dsimp only
      rw [Kernel.follow_blockAddr (by omega), hK₃, hread]
      dsimp only
      rw [if_neg (show ¬ (1 : Int) < 0 by decide), hloaded]
      rfl
    have hopen : K₁.fopen (wholeFile l) filename = (1, K₁) := rfl
    unfold elfLoad
    rw [hnew]
    dsimp only
    rw [hopen]
    dsimp only
    rw [if_neg (show ¬ (1 : Int) ≤ 0 by decide), hopened]
    rfl
  · subst hK₄ hK₃ hK₂ hK₁
    rfl
  · unfold Kernel.imageOf Kernel.setElfFile
    dsimp only
    rw [Function.update_self, hv]

/-- What `task_new` makes for the task at `t`. -/
structure TaskServed (K K' : Kernel Unit) (n t chunk dir : Nat) (table : Nat → Nat) : Prop where
  lt : t < 25600
  free : Free (K.entries t)
  state : ∃ v, v.pageDirectory = chunk ∧ K' = { K with
    kmem := K'.kmem
    queue := taskLink (K.queue.set (blockAddr t) v) (blockAddr t) }
  paging : NewPaging (K.kmem.take t 1 sizeofTask) K'.kmem (pagingIsPresent ||| pagingAccessFromAll)
    chunk dir table
  room : K'.kmem.Room (n + 1027)
  sound : K'.kmem.Sound

/-- `task_new` of a process with an ELF image. -/
theorem taskNew_served {bp be bi : Nat} (hroom : K.kmem.Room n) (hs : K.kmem.Sound)
    (hn : n + 1027 ≤ 25600) (hbp : bp < 25600) (hbe : be < 25600) (hbi : bi < 25600)
    (hft : (K.processAt (blockAddr bp)).filetype = .elf)
    (hptr : (K.processAt (blockAddr bp)).ptr = blockAddr be)
    (himage : K.imageOf (blockAddr be) = blockAddr bi)
    (htail : K.queue.head ≠ 0 → ∃ b < 25600, K.queue.tail = blockAddr b) :
    ∃ t K' chunk dir, ∃ table : Nat → Nat,
      taskNew K (blockAddr bp) = (blockAddr t, K') ∧ TaskServed K K' n t chunk dir table := by
  obtain ⟨t, ht, hz, hfree, hroom₁⟩ := Kernel.served hroom (show 1 ≤ sizeofTask by decide)
    (by decide) (show n + 1 ≤ 25600 by omega)
  have hone : blocksFor sizeofTask = 1 := by decide
  rw [hone] at hz hfree hroom₁
  obtain ⟨k, hk⟩ : ∃ k, K.kmem.take t 1 sizeofTask = k := ⟨_, rfl⟩
  rw [hk] at hz hroom₁
  have hs₁ : k.Sound := hk ▸ hs.take _ _ _
  have hroom₂ : (pagingNew4gb k (pagingIsPresent ||| pagingAccessFromAll)).2.Room (n + 1 + 1026) :=
    pagingNew4gb_room hroom₁ (by omega)
  rcases pagingNew4gb_cases hroom₁.kernel (show pagingIsPresent ||| pagingAccessFromAll < 4096 by
    decide) with ⟨chunk, k', dir, table, he, hp⟩ | ⟨hcard, -⟩
  · rw [he] at hroom₂
    have hne : chunk ≠ 0 := by
      have := hp.chunkWindow.lo
      omega
    have hs₂ : k'.Sound := ⟨hp.quiet.fault.trans hs₁.fault, hp.quiet.short.trans hs₁.short⟩
    obtain ⟨K₁, hK₁⟩ : ∃ K₁ : Kernel Unit, { K with kmem := k } = K₁ := ⟨_, rfl⟩
    have he₁ : pagingNew4gb K₁.kmem (pagingIsPresent ||| pagingAccessFromAll) = (chunk, k') := by
      rw [← hK₁]
      exact he
    obtain ⟨K₂, hK₂⟩ : ∃ K₂ : Kernel Unit, { K with kmem := k' } = K₂ := ⟨_, rfl⟩
    have hK₁₂ : { K₁ with kmem := k' } = K₂ := by rw [← hK₁, ← hK₂]
    have hft₂ : (K₂.processAt (blockAddr bp)).filetype = .elf := by rw [← hK₂]; exact hft
    have hptr₂ : (K₂.processAt (blockAddr bp)).ptr = blockAddr be := by rw [← hK₂]; exact hptr
    have himage₂ : (K₂.elfFileAt (blockAddr be)).elfMemory = blockAddr bi := by
      rw [← hK₂]
      exact himage
    obtain ⟨v, hv, hinit⟩ : ∃ v, v.pageDirectory = chunk ∧
        taskInit K₁ (blockAddr t) (blockAddr bp) =
          (allOk, K₂.setTask (blockAddr t) v) := by
      refine ⟨{ pageDirectory := chunk
                registers := taskRegisters (eEntry K₂.mem (blockAddr bi))
                process := blockAddr bp }, rfl, ?_⟩
      unfold taskInit
      rw [he₁]
      dsimp only
      rw [if_neg hne, hK₁₂, Kernel.follow_blockAddr hbp, hft₂]
      dsimp only
      rw [hptr₂, Kernel.follow_blockAddr hbe, himage₂, Kernel.follow_blockAddr hbi]
    obtain ⟨K₃, hK₃⟩ : ∃ K₃, K₂.setTask (blockAddr t) v = K₃ := ⟨_, rfl⟩
    have htail₃ : (if K₃.queue.head = 0 then K₃ else K₃.follow K₃.queue.tail) = K₃ := by
      split
      · rfl
      · rename_i hhead
        have hq : K₃.queue = K.queue.set (blockAddr t) v := by rw [← hK₃, ← hK₂]; rfl
        obtain ⟨b, hb, htl⟩ := htail (by rw [hq] at hhead; exact hhead)
        have htl' : K₃.queue.tail = blockAddr b := by rw [hq]; exact htl
        rw [htl', Kernel.follow_blockAddr hb]
    refine ⟨t, { K₃ with queue := taskLink K₃.queue (blockAddr t) }, chunk, dir, table, ?_, by omega,
      hfree 0 (by decide), ⟨v, hv, ?_⟩, ?_, ?_, ?_⟩
    · unfold taskNew
      rw [hz]
      dsimp only
      rw [hK₁, if_neg (blockAddr_ne_zero t), hinit, hK₃]
      dsimp only
      rw [if_neg (show ¬ allOk < 0 by decide), htail₃]
    · subst hK₃ hK₂
      rfl
    · subst hK₃ hK₂
      exact hk ▸ hp
    · subst hK₃ hK₂
      exact hroom₂
    · subst hK₃ hK₂
      exact hs₂
  · have := hroom₁.card
    omega

/-! ## Mapping -/

section

variable {σ : Type} {L : Kernel σ} {process t c : Nat}

theorem ePhnum_lt (m : Mem) (header : Nat) : ePhnum m header < 2 ^ 16 := by
  unfold ePhnum read16
  have h0 := (m (Word.add header 44)).toNat_lt
  have h1 := (m (Word.add header 44 + 1)).toNat_lt
  omega

/-- `process_map_memory` of an ELF image whose segments fit. -/
theorem Placed.mapMemory (h : Placed L process t c) {dir f be bi : Nat} {table : Nat → Nat}
    (hd : ProcessDir L process dir f table) (hft : (L.processAt process).filetype = .elf)
    (hptr : (L.processAt process).ptr = blockAddr be) (hbe : be < 25600)
    (himage : L.imageOf (blockAddr be) = blockAddr bi) (hbi : bi < 25600)
    (hmap : Mappable L.mem (blockAddr bi)) (ha : HeadersApart L.mem (blockAddr bi) table) :
    ∃ m, processMapMemory L process = (allOk, L.withMem m) := by
  have himage' : (L.elfFileAt (blockAddr be)).elfMemory = blockAddr bi := himage
  have hnum := ePhnum_lt L.mem (blockAddr bi)
  obtain ⟨L', M, hloop, -⟩ := processMapElf_loop hmap ha (2 ^ 16) 0 L (by omega) hd hd.pageDir
    (by rw [hptr, himage']) fun _ _ => rfl
  obtain ⟨m, hm⟩ := h.loop (elfPheader L.mem (blockAddr bi)) (2 ^ 16) 0 allOk L
  rw [hloop] at hm
  dsimp only at hm
  have helf : processMapElf L process = (allOk, L.withMem m) := by
    unfold processMapElf
    dsimp only
    rw [hptr, Kernel.follow_blockAddr hbe, himage', Kernel.follow_blockAddr hbi, hloop, hm]
  obtain ⟨m', hm'⟩ := (h.withMem m).mapTo programVirtualStackAddressEnd
    ((L.withMem m).processAt process).stack
    (pagingAlignAddress (Word.add ((L.withMem m).processAt process).stack userProgramStackSize))
    pagingUserWriteable
  refine ⟨m', ?_⟩
  unfold processMapMemory
  rw [hft, helf]
  dsimp only
  rw [if_neg (show ¬ allOk < 0 by decide), hm']
  rfl

end

/-! ## The whole load -/

section

variable {σ : Type} {k k' : Kmem} {b j n size flags chunk dir : Nat} {table : Nat → Nat}

/-- The blocks of a new directory were free. -/
theorem NewPaging.apart (hp : NewPaging k k' flags chunk dir table) (hj : j < 25600)
    (htaken : ¬ Free (k.heap.table.entries j)) :
    blockAddr j ≠ dir ∧ blockAddr j ≠ chunk ∧ ∀ i < 1024, blockAddr j ≠ table i :=
  ⟨fun he => htaken (hp.taken j hj (.inl he)).1, fun he => htaken (hp.taken j hj (.inr (.inl he))).1,
    fun i hi he => htaken (hp.taken j hj (.inr (.inr ⟨i, hi, he⟩))).1⟩

theorem NewPaging.sameBlock (hp : NewPaging k k' flags chunk dir table) (hj : j < 25600)
    (htaken : ¬ Free (k.heap.table.entries j)) : SameBlock k.mem k'.mem j := fun x hx hx' => by
  obtain ⟨hd, hc, ht⟩ := hp.apart hj htaken
  have hwin := inWindow_blockAddr hj
  have hlt := blockAddr_lt hj
  have hlo := hwin.lo
  have hdir := hwin.disjoint hp.pageDir.dirWindow hd
  have hchunk := hwin.disjoint hp.chunkWindow hc
  refine hp.outside x (by omega) (by omega) (by omega) (by omega) fun i hi => ?_
  have := hwin.disjoint (hp.pageDir.window i hi) (ht i hi)
  omega

end

/-- A file whose image can be mapped wherever it is in the heap. -/
def MapsAnywhere (l : List UInt8) : Prop :=
  ∀ m, ∀ b < 25600, BytesAt m (blockAddr b) l → Mappable m (blockAddr b)

/-- `process_load_for_slot` from the task on. -/
theorem loadForSlot_task_served {K : Kernel Unit} {l : List UInt8} {n bp be bi out slot : Nat}
    (hroom : K.kmem.Room n) (hs : K.kmem.Sound) (hn : n + 1027 ≤ 25600) (hi : ElfImage l)
    (hle : l.length ≤ 4096) (hl : MapsAnywhere l) (hbp : bp < 25600) (hbe : be < 25600)
    (hbi : bi < 25600) (hft : (K.processAt (blockAddr bp)).filetype = .elf)
    (hptr : (K.processAt (blockAddr bp)).ptr = blockAddr be)
    (himage : K.imageOf (blockAddr be) = blockAddr bi) (hbytes : BytesAt K.mem (blockAddr bi) l)
    (htaken : ¬ Free (K.entries bi))
    (htail : K.queue.head ≠ 0 → ∃ b < 25600, K.queue.tail = blockAddr b) :
    ∃ K', processLoadForSlot.task K out (blockAddr bp) slot = (allOk, blockAddr bp, K') ∧
      K'.kmem.Sound ∧ K'.kmem.Room (n + 1027) ∧ ∃ b < 25600, K'.queue.tail = blockAddr b := by
  have hlen := hi.header
  obtain ⟨K₁, hK₁⟩ : ∃ K₁, K.setProcess (blockAddr bp)
    { K.processAt (blockAddr bp) with id := slot } = K₁ := ⟨_, rfl⟩
  have hat₁ : K₁.processAt (blockAddr bp) = { K.processAt (blockAddr bp) with id := slot } := by
    rw [← hK₁]
    exact Function.update_self _ _ _
  have hkmem₁ : K₁.kmem = K.kmem := by rw [← hK₁]; rfl
  have hqueue₁ : K₁.queue = K.queue := by rw [← hK₁]; rfl
  have helf₁ : K₁.elfFileAt = K.elfFileAt := by rw [← hK₁]; rfl
  obtain ⟨t, K₂, chunk, dir, table, hnew, hserved⟩ := taskNew_served (K := K₁) (hkmem₁ ▸ hroom)
    (hkmem₁ ▸ hs) hn hbp hbe hbi (by rw [hat₁, hft]) (by rw [hat₁, hptr])
    (by unfold Kernel.imageOf; rw [helf₁]; exact himage) (by rw [hqueue₁]; exact htail)
  obtain ⟨v, hv, hstate⟩ := hserved.state
  obtain ⟨c, hc, hchunk⟩ : ∃ c < 25600, chunk = blockAddr c := by
    obtain ⟨hlt, heq⟩ := hserved.paging.chunkWindow.blockAddr
    exact ⟨_, hlt, heq.symm⟩
  obtain ⟨K₃, hK₃⟩ : ∃ K₃, K₂.setProcess (blockAddr bp)
    { K₂.processAt (blockAddr bp) with task := blockAddr t } = K₃ := ⟨_, rfl⟩
  have hat₃ : K₃.processAt (blockAddr bp) =
      { K.processAt (blockAddr bp) with id := slot, task := blockAddr t } := by
    have hat₂ : K₂.processAt (blockAddr bp) = K₁.processAt (blockAddr bp) := by rw [hstate]
    rw [← hK₃]
    refine (Function.update_self _ _ _).trans ?_
    rw [hat₂, hat₁]
  have hkmem₃ : K₃.kmem = K₂.kmem := by rw [← hK₃]; rfl
  have hqueue₃ : (K₃.queue.task (blockAddr t)).pageDirectory = chunk := by
    have hq : K₃.queue = K₂.queue := by rw [← hK₃]; rfl
    rw [hq, hstate]
    dsimp only
    rw [taskLink_pageDirectory, TaskQueue.set_task, if_pos rfl, hv]
  have helf₃ : K₃.elfFileAt = K.elfFileAt := by
    rw [← hK₃, ← helf₁]
    refine Eq.trans (b := K₂.elfFileAt) rfl ?_
    rw [hstate]
  -- the image has not moved
  have hfree : Free (K.kmem.heap.table.entries t) := by
    have h := hserved.free
    unfold Kernel.entries at h
    rwa [hkmem₁] at h
  have hne : bi ≠ t := by
    rintro rfl
    exact htaken hfree
  have htaken' : ¬ Free ((K.kmem.take t 1 sizeofTask).heap.table.entries bi) := by
    rw [take_heap, markBlocksTaken_one _ hserved.lt, if_neg hne]
    exact htaken
  have hpaging := hserved.paging
  rw [hkmem₁] at hpaging
  have hsame : SameBlock K.mem K₃.mem bi := by
    have hrun : FreeRun K.kmem.heap.table.entries t 1 := fun i hi => by
      obtain rfl : i = 0 := by omega
      exact hfree
    have hlt := hserved.lt
    have h₁ : SameBlock K.mem (K.kmem.take t 1 sizeofTask).mem bi :=
      take_sameBlock hbi htaken (by omega) hrun (by decide)
    have h₂ := hpaging.sameBlock hbi htaken'
    unfold Kernel.mem
    rw [hkmem₃]
    exact h₁.trans h₂
  have hbytes₃ : BytesAt K₃.mem (blockAddr bi) l :=
    hbytes.of_sameBlock (show l.length ≤ 4096 * 1 by omega) fun j hj hj' => by
      obtain rfl : j = bi := by omega
      exact hsame
  have hd : ProcessDir K₃ (blockAddr bp) dir
      (pagingIsPresent ||| pagingAccessFromAll ||| pagingIsWriteable) table := by
    have hmem₃ : K₃.mem = K₂.kmem.mem := by
      unfold Kernel.mem
      rw [hkmem₃]
    refine ⟨hmem₃ ▸ hpaging.pageDir, ?_⟩
    rw [hat₃, hqueue₃, hmem₃]
    exact hpaging.chunkOf
  have hbi_lt := blockAddr_lt hbi
  have hplaced : Placed K₃ (blockAddr bp) t c := by
    refine ⟨by rw [hat₃], hserved.lt, ?_, hc⟩
    exact hqueue₃.trans hchunk
  have hout : ∀ k < l.length, OutsideTables table (blockAddr bi + k) := fun k hk i hi' => by
    have hapart := (hpaging.apart hbi htaken').2.2 i hi'
    have := (inWindow_blockAddr hbi).disjoint (hpaging.pageDir.window i hi') hapart
    omega
  have hend : blockAddr bi + l.length ≤ 2 ^ 28 := by
    have := (inWindow_blockAddr hbi).hi
    omega
  obtain ⟨m, hmap⟩ := hplaced.mapMemory hd (by rw [hat₃, hft]) (by rw [hat₃, hptr]) hbe
    (by unfold Kernel.imageOf; rw [helf₃]; exact himage) hbi (hl K₃.mem bi hbi hbytes₃)
    (hbytes₃.headersApart hi hend hout)
  refine ⟨{ K₃.withMem m with
    processes := Function.update (K₃.withMem m).processes slot (blockAddr bp) }, ?_, ?_, ?_, t,
    hserved.lt, ?_⟩
  · unfold processLoadForSlot.task
    rw [hK₁]
    dsimp only
    rw [hnew]
    dsimp only
    rw [if_neg (toInt_blockAddr_ne_zero hserved.lt), hK₃, hmap]
    dsimp only
    rw [if_neg (show ¬ allOk < 0 by decide)]
  · have h := hserved.sound
    rw [← hkmem₃] at h
    exact h.mem m
  · have h := hserved.room
    rw [← hkmem₃] at h
    exact h.mem m
  · have hq : K₃.queue = K₂.queue := by rw [← hK₃]; rfl
    change K₃.queue.tail = _
    rw [hq, hstate]
    dsimp only
    unfold taskLink
    split <;> rfl

/-- A small file is loaded where there is room. -/
theorem processLoad_served {K : Kernel Unit} {l filename : List UInt8} {n out stale : Nat}
    (hroom : K.kmem.Room n) (hs : K.kmem.Sound) (hn : n + 1036 ≤ 25600) (hi : ElfImage l)
    (hle : l.length ≤ 4096) (hl : MapsAnywhere l) (hslot : ∃ i < maxProcesses, K.processes i = 0)
    (htail : K.queue.head ≠ 0 → ∃ b < 25600, K.queue.tail = blockAddr b) :
    ∃ process K', processLoad (wholeFile l) K filename out stale = (allOk, process, K') ∧
      K'.kmem.Sound ∧ K'.kmem.Room (n + 1036) ∧ ∃ b < 25600, K'.queue.tail = blockAddr b := by
  obtain ⟨i, hi_lt, hget, hnull, -⟩ | ⟨-, hall⟩ := processGetFreeSlot_cases K
  swap
  · obtain ⟨i, hi_lt, h⟩ := hslot
    exact absurd h (hall i hi_lt)
  -- the process
  have hthree : blocksFor sizeofProcess = 3 := by decide
  obtain ⟨bp, hbp, hzp, -, hroom₁⟩ := Kernel.served hroom (show 1 ≤ sizeofProcess by decide)
    (by decide) (by omega)
  rw [hthree] at hzp hroom₁
  obtain ⟨K₁, hK₁⟩ : ∃ K₁, Kernel.setProcess { K with
    kmem := K.kmem.take bp 3 sizeofProcess } (blockAddr bp) {} = K₁ := ⟨_, rfl⟩
  have hroomK₁ : K₁.kmem.Room (n + 3) := by
    rw [← hK₁]
    exact hroom₁
  have hsK₁ : K₁.kmem.Sound := by
    rw [← hK₁]
    exact hs.take _ _ _
  have hqueue₁ : K₁.queue = K.queue := by rw [← hK₁]; rfl
  -- its file
  obtain ⟨be, bi, K₂, helf, hbe, hbi, hfile, hroom₂, hsound₂, himage₂, hbytes₂, htaken₂⟩ :=
    elfLoad_served filename hroomK₁ hsK₁ (show n + 3 + 2 ≤ 25600 by omega) hi hle
  obtain ⟨K₃, hK₃⟩ : ∃ K₃, K₂.setProcess (blockAddr bp)
    { K₂.processAt (blockAddr bp) with filetype := .elf, ptr := blockAddr be } = K₃ := ⟨_, rfl⟩
  have hdata : processLoadData (wholeFile l) K₁ filename (blockAddr bp) = (allOk, K₃) := by
    unfold processLoadData processLoadElf
    rw [helf]
    dsimp only
    rw [if_neg (show ¬ allOk < 0 by decide)]
    dsimp only
    rw [if_neg (show ¬ allOk = -einformat by decide), hK₃]
  have hkmem₃ : K₃.kmem = K₂.kmem := by rw [← hK₃]; rfl
  have hroomK₃ : K₃.kmem.Room (n + 5) := hkmem₃ ▸ hroom₂
  have hqueue₃ : K₃.queue = K.queue := by
    rw [← hqueue₁, ← hK₃]
    refine Eq.trans (b := K₂.queue) rfl ?_
    rw [hfile]
  -- its stack
  have hfour : blocksFor userProgramStackSize = 4 := by decide
  obtain ⟨bs, hbs, hzs, hrun, hroom₄⟩ := Kernel.served hroomK₃
    (show 1 ≤ userProgramStackSize by decide) (by decide) (by omega)
  rw [hfour] at hzs hroom₄ hrun
  obtain ⟨K₄, hK₄⟩ : ∃ K₄ : Kernel Unit, { K₃ with
    kmem := K₃.kmem.take bs 4 userProgramStackSize } = K₄ := ⟨_, rfl⟩
  rw [hK₄] at hzs
  obtain ⟨K₅, hK₅⟩ : ∃ K₅, K₄.setProcess (blockAddr bp)
    { K₄.processAt (blockAddr bp) with stack := blockAddr bs } = K₅ := ⟨_, rfl⟩
  have hkmem₅ : K₅.kmem = K₃.kmem.take bs 4 userProgramStackSize := by
    rw [← hK₅, ← hK₄]
    rfl
  have hat₅ : K₅.processAt (blockAddr bp) = { K₃.processAt (blockAddr bp) with
      stack := blockAddr bs } := by
    rw [← hK₅]
    refine (Function.update_self _ _ _).trans ?_
    rw [← hK₄]
  have hat₃ : (K₃.processAt (blockAddr bp)).filetype = .elf ∧
      (K₃.processAt (blockAddr bp)).ptr = blockAddr be := by
    have h : K₃.processAt (blockAddr bp) = { K₂.processAt (blockAddr bp) with
        filetype := .elf, ptr := blockAddr be } := by
      rw [← hK₃]
      exact Function.update_self _ _ _
    rw [h]
    exact ⟨rfl, rfl⟩
  have himage₅ : K₅.imageOf (blockAddr be) = blockAddr bi := by
    rw [← himage₂, ← hK₅, ← hK₄, ← hK₃]
    rfl
  have htaken₃ : ¬ Free (K₃.kmem.heap.table.entries bi) := by
    rw [hkmem₃]
    exact htaken₂
  have hsame : SameBlock K₃.mem K₅.mem bi := by
    unfold Kernel.mem
    rw [hkmem₅]
    exact take_sameBlock hbi htaken₃ (by omega) hrun (by decide)
  have hbytes₅ : BytesAt K₅.mem (blockAddr bi) l := by
    have hbytes₃ : BytesAt K₃.mem (blockAddr bi) l := by
      unfold Kernel.mem
      rw [hkmem₃]
      exact hbytes₂
    refine hbytes₃.of_sameBlock (show l.length ≤ 4096 * 1 by omega) fun j hj hj' => ?_
    obtain rfl : j = bi := by omega
    exact hsame
  have htaken₅ : ¬ Free (K₅.entries bi) := by
    unfold Kernel.entries
    rw [hkmem₅, take_heap, markBlocksTaken_entries (by decide) (by omega)]
    split
    · exact chainEntry_not_free _ _
    · exact htaken₃
  have hroomK₅ : K₅.kmem.Room (n + 9) := by
    rw [hkmem₅]
    exact hroom₄
  have hsK₅ : K₅.kmem.Sound := by
    rw [hkmem₅, hkmem₃]
    exact hsound₂.take _ _ _
  have hqueue₅ : K₅.queue = K.queue := by
    rw [← hqueue₃, ← hK₅, ← hK₄]
    rfl
  have hft₅ : (K₅.processAt (blockAddr bp)).filetype = .elf := by
    rw [hat₅]
    exact hat₃.1
  have hptr₅ : (K₅.processAt (blockAddr bp)).ptr = blockAddr be := by
    rw [hat₅]
    exact hat₃.2
  have hserved : ∃ K', processLoadForSlot.task K₅ out (blockAddr bp) i =
      (allOk, blockAddr bp, K') ∧ K'.kmem.Sound ∧ K'.kmem.Room (n + 9 + 1027) ∧
        ∃ b < 25600, K'.queue.tail = blockAddr b :=
    loadForSlot_task_served hroomK₅ hsK₅ (by omega) hi hle hl (by omega) hbe hbi hft₅ hptr₅ himage₅
      hbytes₅ htaken₅ (by rw [hqueue₅]; exact htail)
  obtain ⟨K', htask, hsK', hroomK'⟩ := hserved
  refine ⟨blockAddr bp, K', ?_, hsK', hroomK'⟩
  have hprocess : processLoadForSlot.process (wholeFile l) { K with
      kmem := K.kmem.take bp 3 sizeofProcess } filename out (blockAddr bp) i =
        (allOk, blockAddr bp, K') := by
    unfold processLoadForSlot.process
    rw [hK₁]
    dsimp only
    rw [hdata]
    dsimp only
    rw [if_neg (show ¬ allOk < 0 by decide), hzs]
    dsimp only
    rw [hK₅, if_neg (blockAddr_ne_zero bs), htask]
  have hget' : processGet K i = 0 := by
    unfold processGet
    rw [if_neg (by omega)]
    exact hnull
  unfold processLoad
  rw [hget]
  dsimp only
  rw [if_neg (by omega), Int.toNat_natCast]
  unfold processLoadForSlot
  rw [if_neg (not_not.2 hget'), hzp]
  dsimp only
  rw [if_neg (blockAddr_ne_zero bp), hprocess]

end

/-! ## What a loaded program sees -/

section

variable {σ : Type} {F : FileLayer σ} {owned : σ → Nat → Prop} {onFile : Int → σ → Prop}
  {K K' : Kernel σ} {filename file : List UInt8} {process : Nat}

end

/-! A file with one segment, from its first byte on. -/

section

variable {phdr : Elf32Phdr} {data : List UInt8}

/-- A header, the program header `phdr` and the bytes `data`. -/
def oneSegment (phdr : Elf32Phdr) (data : List UInt8) : List UInt8 :=
  elfHeaderBytes 52 1 ++ phdrBytes phdr ++ data

theorem oneSegment_length (phdr : Elf32Phdr) (data : List UInt8) :
    (oneSegment phdr data).length = 84 + data.length := by
  unfold oneSegment
  rw [List.length_append, List.length_append]
  rfl

theorem bytesAt_fileMem (file : List UInt8) : BytesAt (fileMem file) 0 file := fun k _ => by
  unfold fileMem
  rw [Nat.zero_add]

/-- The headers of the image of such a file. -/
theorem oneSegment_headers {m : Mem} {header : Nat} (h : BytesAt m header (oneSegment phdr data))
    (hend : header + 84 ≤ 2 ^ 32) (hw : phdr.Words) :
    ePhoff m header = 52 ∧ ePhnum m header = 1 ∧ elfValidateLoaded m header = allOk ∧
      programHeader m header 0 = phdr := by
  obtain ⟨hphoff, hphnum, hacc⟩ := elfHeader_of_bytes h.left.left (by omega) (by decide) (by decide)
    (by decide)
  refine ⟨hphoff, hphnum, hacc, ?_⟩
  have haddr : elfProgramHeader m header 0 = header + 52 := by
    rw [elfProgramHeader_eq (by omega), hphoff, Word.add_of_lt (by omega)]
  unfold programHeader
  rw [haddr]
  exact elf32Phdr_of_bytes h.left.right (by omega) hw

theorem oneSegment_file (hw : phdr.Words) (data : List UInt8) :
    ePhnum (fileMem (oneSegment phdr data)) 0 = 1 ∧ filePhdr (oneSegment phdr data) 0 = phdr :=
  have h := oneSegment_headers (bytesAt_fileMem (oneSegment phdr data)) (by decide) hw
  ⟨h.2.1, h.2.2.2⟩

theorem IsSegment.oneSegment {i : Nat} (hw : phdr.Words) (h : IsSegment (oneSegment phdr data) i) :
    i = 0 := by
  have h1 := h.1
  rw [(oneSegment_file hw data).1] at h1
  omega

theorem oneSegment_elfImage (hw : phdr.Words) : ElfImage (oneSegment phdr data) := by
  obtain ⟨hphoff, hphnum, hacc, -⟩ :=
    oneSegment_headers (bytesAt_fileMem (oneSegment phdr data)) (by decide) hw
  have hlen := oneSegment_length phdr data
  exact ⟨by omega, by omega, hacc⟩

theorem oneSegment_mapsAnywhere (hw : phdr.Words) (hcong : phdr.pVaddr % 4096 = phdr.pOffset % 4096)
    (hvirt : phdr.pVaddr + phdr.pMemsz ≤ 2 ^ 31) (hphys : phdr.pOffset + phdr.pMemsz ≤ 2 ^ 31) :
    MapsAnywhere (oneSegment phdr data) := fun m b hb hbytes => by
  have hwin := inWindow_blockAddr hb
  have hlt := blockAddr_lt hb
  obtain ⟨-, hphnum, hacc, hphdr⟩ := oneSegment_headers hbytes (by omega) hw
  have hfirst : ∀ i < ePhnum m (blockAddr b), i = 0 := fun i hi => by omega
  refine ⟨hacc, hwin.aligned, fun i hi => ?_, fun i hi j hj hne => ?_⟩
  · obtain rfl := hfirst i hi
    rw [hphdr]
    exact ⟨hcong, by omega, by omega⟩
  · exact absurd ((hfirst i hi).trans (hfirst j hj).symm) hne

end

theorem smallPhdr_words : smallPhdr.Words :=
  ⟨by decide, by decide, by decide, by decide, by decide, by decide⟩

/-- The small file with the 16 bytes that `p_filesz` leaves out. -/
def paddedElf (data : List UInt8) : List UInt8 := oneSegment smallPhdr data

section

variable {data : List UInt8} {i : Nat}

theorem paddedElf_length (hlen : data.length = 16) : (paddedElf data).length = 100 := by
  unfold paddedElf
  rw [oneSegment_length, hlen]

theorem paddedElf_regular (hlen : data.length = 16) : (wholeFile (paddedElf data)).Regular :=
  wholeFile_regular (by rw [paddedElf_length hlen]; decide)

theorem IsSegment.paddedElf (h : IsSegment (paddedElf data) i) :
    i = 0 ∧ filePhdr (paddedElf data) i = smallPhdr := by
  obtain rfl := h.oneSegment smallPhdr_words
  exact ⟨rfl, (oneSegment_file smallPhdr_words data).2⟩

theorem paddedElf_mapsAnywhere : MapsAnywhere (paddedElf data) :=
  oneSegment_mapsAnywhere smallPhdr_words rfl (by decide) (by decide)

/-- The load of such a file at boot. -/
theorem paddedElf_load (hlen : data.length = 16) :
    ∃ process K', processLoad (wholeFile (paddedElf data)) bootKernel [0x73] 0 0 =
      (allOk, process, K') ∧ K'.kmem.Sound := by
  have h := oneSegment_length smallPhdr data
  obtain ⟨process, K', hload, hs, -⟩ := processLoad_served (K := bootKernel) bootKmem_room ⟨rfl, rfl⟩
    (by decide) (oneSegment_elfImage smallPhdr_words)
    (show (paddedElf data).length ≤ 4096 by unfold paddedElf; omega) paddedElf_mapsAnywhere
    ⟨0, by decide, rfl⟩ (fun h => absurd rfl h)
  exact ⟨process, K', hload, hs⟩

theorem bootKernel_tidy : Tidy (noBlocks bootKernel.files) bootKernel.kmem :=
  ⟨bootKmem_kernel, fun _ _ _ => rfl, fun _ h => absurd h id⟩

end

end Pandora
