import Pandora.Process.Arguments
import Pandora.Process.Holdings
import Pandora.Process.Image

/-!
# A process and its blocks

`Live K process obj dir f table`: the allocations in scope `obj` are those of the process, each in
its role, and the structures point to them. The last calls of a load leave a live process, whatever
the file holds (`Scope.taskAssembled`). The mapping functions write to the tables of the process alone
(`Kernel.Remapped`).
-/

namespace Pandora

open ByteMem

/-! ## Mapping -/

section

variable {σ : Type} {owned : σ → Nat → Prop} {rest : Nat → Prop} {K₀ K K' K'' : Kernel σ}
  {obj : Role → Option (Nat × Nat)} {process dir f flags : Nat} {table : Nat → Nat}

/-- Entries of the directory have changed, and no other memory. -/
structure Kernel.Remapped (K K' : Kernel σ) (dir f : Nat) (table : Nat → Nat) : Prop where
  memOnly : K.MemOnly K'
  mapped : ∃ M, Mapped K.mem K'.mem dir f table M

theorem Kernel.Remapped.refl (hd : PageDir K.mem dir f table) : K.Remapped K dir f table :=
  ⟨.refl K, _, .refl hd⟩

theorem Kernel.Remapped.trans (h : K.Remapped K' dir f table) (h' : K'.Remapped K'' dir f table) :
    K.Remapped K'' dir f table := by
  obtain ⟨hk, M, hm⟩ := h
  obtain ⟨hk', M', hm'⟩ := h'
  exact ⟨hk.trans hk', M', hm.trans hm'⟩

theorem Kernel.Remapped.processDir (h : K.Remapped K' dir f table)
    (hd : ProcessDir K process dir f table) : ProcessDir K' process dir f table := by
  obtain ⟨hk, M, hm⟩ := h
  exact hd.mapped hk hm

theorem Kernel.mapTo_remapped (hd : ProcessDir K process dir f table) {virt phys physEnd : Nat}
    (hv : virt % 4096 = 0) (hvlt : virt < 2 ^ 32) (helt : physEnd < 2 ^ 32) (hf : flags < 4096) :
    K.Remapped (K.mapTo process virt phys physEnd flags).2 dir f table := by
  obtain ⟨res, K', M, hr, hk, hm, -⟩ := Kernel.mapTo_cases hd virt phys physEnd hv hvlt helt hf
  rw [hr]
  exact ⟨hk, M, hm⟩

theorem Kernel.follow_remapped (hd : PageDir K.mem dir f table) (p : Nat) :
    K.Remapped (K.follow p) dir f table := by
  obtain ⟨hk, hmem⟩ := K.follow_memOnly p
  refine ⟨hk, pageEntry K.mem table, ?_⟩
  rw [hmem]
  exact .refl hd

theorem pagingAlignAddress_lt {a : Nat} (h : a < 2 ^ 32) : pagingAlignAddress a < 2 ^ 32 := by
  unfold pagingAlignAddress
  split
  · exact Word.sub_lt _ _
  · exact h

theorem processMapElf_loop_remapped (phdrs : Nat) : ∀ (n i : Nat) (res : Int) (K : Kernel σ),
    ProcessDir K process dir f table →
    K.Remapped (processMapElf.loop process phdrs n i res K).2 dir f table
  | 0, _, _, _, hd => .refl hd.pageDir
  | n + 1, i, res, K, hd => by
    unfold processMapElf.loop
    split
    · obtain ⟨phdr, hphdr⟩ : ∃ phdr, elf32Phdr K.mem (Word.add phdrs (32 * i)) = phdr := ⟨_, rfl⟩
      rw [hphdr]
      have hv : phdr.pVaddr < 2 ^ 32 := by
        rw [← hphdr]
        exact read32_lt _ _
      have hseg : K.Remapped (processMapElf.segment K process phdr).2 dir f table := by
        refine Kernel.mapTo_remapped hd ?_ ?_ (pagingAlignAddress_lt (Word.add_lt _ _)) phdr.flags_lt
        · rw [pagingAlignToLowerPage_eq]
          omega
        · rw [pagingAlignToLowerPage_eq]
          omega
      dsimp only
      split
      · exact hseg
      · exact hseg.trans (processMapElf_loop_remapped phdrs n (i + 1) _ _ (hseg.processDir hd))
    · exact .refl hd.pageDir

theorem processMapElf_remapped (hd : ProcessDir K process dir f table) :
    K.Remapped (processMapElf K process).2 dir f table := by
  have h₁ := Kernel.follow_remapped hd.pageDir (K.processAt process).ptr
  have h₂ := h₁.trans (Kernel.follow_remapped (h₁.processDir hd).pageDir
    ((K.follow (K.processAt process).ptr).elfFileAt (K.processAt process).ptr).elfMemory)
  exact h₂.trans (processMapElf_loop_remapped _ _ _ _ _ (h₂.processDir hd))

theorem processMapBinary_remapped (hd : ProcessDir K process dir f table) :
    K.Remapped (processMapBinary K process).2 dir f table := by
  unfold processMapBinary
  dsimp only
  refine Kernel.mapTo_remapped hd ?_ ?_ (pagingAlignAddress_lt (Word.add_lt _ _)) ?_
  · decide
  · decide
  · decide

/-- `process_map_memory`, whatever the image holds. -/
theorem processMapMemory_remapped (hd : ProcessDir K process dir f table) :
    K.Remapped (processMapMemory K process).2 dir f table := by
  have hstack : ∀ {K' : Kernel σ}, K.Remapped K' dir f table → ∀ stack, K.Remapped
      (K'.mapTo process programVirtualStackAddressEnd stack
        (pagingAlignAddress (Word.add stack userProgramStackSize)) pagingUserWriteable).2
      dir f table := fun {K'} h stack => by
    obtain ⟨hk, M, hm, -⟩ := mapStack_frames (h.processDir hd) stack
    exact h.trans ⟨hk, M, hm⟩
  have helf := processMapElf_remapped hd
  have hbinary := processMapBinary_remapped hd
  unfold processMapMemory
  cases (K.processAt process).filetype with
  | elf =>
    dsimp only
    split
    · exact helf
    · exact hstack helf _
  | binary =>
    dsimp only
    split
    · exact hbinary
    · exact hstack hbinary _

/-- The tables are in scope. -/
theorem Scope.remapped (h : Scope owned rest K₀ K obj) (hd : PageDir K.mem dir f table)
    (hobj : ∀ i < 1024, obj (.table i) = some (blockOf (table i), 1))
    (hr : K.Remapped K' dir f table) : Scope owned rest K₀ K' obj := by
  obtain ⟨hk, M, hm⟩ := hr
  exact h.memOnly hk fun b hb => hm.sameBlock (h.taken b hb).1 (h.table_ne hd hobj hb)

end

/-! ## Live processes -/

section

variable {σ : Type} {F : FileLayer σ} {owned : σ → Nat → Prop} {rest : Nat → Prop}
  {K₀ K K' : Kernel σ} {obj : Role → Option (Nat × Nat)} {filename : List UInt8}
  {process dir f : Nat} {table : Nat → Nat}

/-- The record `i` of a process and its chain, or an empty slot. -/
inductive RecordAt (K : Kernel σ) (obj : Role → Option (Nat × Nat)) (process i : Nat) : Prop where
  | empty : (K.processAt process).allocations i = {} → obj (.allocation i) = none →
      RecordAt K obj process i
  | chain (b n : Nat) : LiveChain K.entries ((K.processAt process).allocations i) b n →
      obj (.allocation i) = some (b, n) → RecordAt K obj process i

/-- The process and the allocations made on its behalf (module doc). -/
structure Live (K : Kernel σ) (process : Nat) (obj : Role → Option (Nat × Nat)) (dir f : Nat)
    (table : Nat → Nat) : Prop extends ProcessDir K process dir f table where
  block : ∃ b n, obj .process = some (b, n) ∧ process = blockAddr b
  program : ProgramAt K obj process
  stack : ∃ b n, obj .stack = some (b, n) ∧ (K.processAt process).stack = blockAddr b ∧
    userProgramStackSize ≤ 4096 * n
  task : ∃ b n, obj .task = some (b, n) ∧ (K.processAt process).task = blockAddr b
  owner : (K.queue.task (K.processAt process).task).process = process
  window : InWindow (K.queue.task (K.processAt process).task).pageDirectory
  chunkAt : obj .chunk = some (blockOf (K.queue.task (K.processAt process).task).pageDirectory, 1)
  directory : obj .directory = some (blockOf dir, 1)
  tables : ∀ i < 1024, obj (.table i) = some (blockOf (table i), 1)
  records : ∀ i < maxProgramAllocations, RecordAt K obj process i
  noOther : ∀ i, (1024 ≤ i → obj (.table i) = none) ∧
    (maxProgramAllocations ≤ i → obj (.allocation i) = none)

theorem Live.heldDir (h : Live K process obj dir f table) (hs : Scope owned rest K₀ K obj) :
    HeldDir K process dir f table where
  toProcessDir := h.toProcessDir
  heap := hs.tidy.kernel
  chunkWindow := h.window
  chunkTaken := hs.not_free h.chunkAt (Nat.le_refl _) (Nat.lt_succ_self _)
  dirTaken := hs.not_free h.directory (Nat.le_refl _) (Nat.lt_succ_self _)
  tableTaken := fun i hi => hs.not_free (h.tables i hi) (Nat.le_refl _) (Nat.lt_succ_self _)

/-- A live process without records, seen by its holdings. -/
theorem Live.holdings (h : Live K process obj dir f table)
    (hfresh : ∀ i, (K.processAt process).allocations i = {}) :
    Holdings K process obj dir f table where
  toProcessDir := h.toProcessDir
  task := h.task
  window := h.window
  chunkAt := h.chunkAt
  directory := h.directory
  tables := h.tables
  block := h.block
  program := h.program
  stack := h.stack
  records := fun i hi => by
    cases h.records i hi with
    | empty ha hobj =>
      rw [hobj]
      exact .empty ha
    | chain b n hc _ =>
      have hptr := hc.ptr
      rw [hfresh i] at hptr
      exact absurd hptr.symm (blockAddr_ne_zero b)
  noOther := h.noOther

/-- A block of the rest is no part of the directory. -/
theorem Live.dataBlock (h : Live K process obj dir f table) (hs : Scope owned rest K₀ K obj) {b : Nat}
    (hb : rest b) : DataBlock K process dir table b := by
  have hne : ∀ {r a}, obj r = some (blockOf a, 1) → InWindow a → blockAddr b ≠ a :=
    fun {r a} hr hw he => hs.ne_of_rest hr hb (blockAddr_inj.1 (he.trans hw.blockAddr.2.symm))
  obtain ⟨hlt, htaken, -⟩ := hs.taken b hb
  exact ⟨hlt, htaken, hne h.directory h.pageDir.dirWindow, hne h.chunkAt h.window,
    fun i hi => hne (h.tables i hi) (h.pageDir.window i hi)⟩

/-! ## Mapping follows no bad pointer -/

theorem Placed.loop (phdrs : Nat) : ∀ (n i : Nat) (res : Int) (L : Kernel σ),
    Placed L process t c → ∃ m, (processMapElf.loop process phdrs n i res L).2 = L.withMem m
  | 0, _, _, L, _ => ⟨L.mem, rfl⟩
  | n + 1, i, res, L, h => by
    unfold processMapElf.loop
    split
    · dsimp only
      obtain ⟨m, hm⟩ : ∃ m, (processMapElf.segment L process
          (elf32Phdr L.mem (Word.add phdrs (32 * i)))).2 = L.withMem m := h.mapTo _ _ _ _
      split
      · exact ⟨m, hm⟩
      · obtain ⟨m', hm'⟩ := Placed.loop phdrs n (i + 1) (processMapElf.segment L process
          (elf32Phdr L.mem (Word.add phdrs (32 * i)))).1 _ (h.withMem m)
        rw [hm]
        exact ⟨m', hm'⟩
    · exact ⟨L.mem, rfl⟩

/-- `process_map_memory` of a program in scope. -/
theorem Scope.mapMemory_quiet (h : Scope owned rest K₀ K obj) {t c : Nat} (hp : Placed K process t c)
    (hprogram : ProgramAt K obj process) : K.kmem.Quiet (processMapMemory K process).2.kmem := by
  have hstack : ∀ {m} {res : Int} {stack : Nat}, K.kmem.Quiet
      (if res < 0 then (res, K.withMem m) else (res, ((K.withMem m).mapTo process
        programVirtualStackAddressEnd stack (pagingAlignAddress (Word.add stack userProgramStackSize))
        pagingUserWriteable).2)).2.kmem := fun {m res stack} => by
    split
    · exact ⟨rfl, rfl, rfl⟩
    · obtain ⟨m', hm'⟩ := (hp.withMem m).mapTo programVirtualStackAddressEnd stack
        (pagingAlignAddress (Word.add stack userProgramStackSize)) pagingUserWriteable
      rw [hm']
      exact ⟨rfl, rfl, rfl⟩
  cases hprogram with
  | elf be ne bi ni hft hptr helf himage hi =>
    have himage' : (K.elfFileAt (blockAddr be)).elfMemory = blockAddr bi := himage
    obtain ⟨m, hm⟩ := hp.loop (elfPheader K.mem (blockAddr bi)) (2 ^ 16) 0 allOk K
    have helf : processMapElf K process =
        ((processMapElf.loop process (elfPheader K.mem (blockAddr bi)) (2 ^ 16) 0 allOk K).1,
          K.withMem m) := by
      unfold processMapElf
      dsimp only
      rw [hptr, Kernel.follow_blockAddr (h.pos helf).2, himage', Kernel.follow_blockAddr (h.pos hi).2,
        ← hm]
    unfold processMapMemory
    rw [hft, helf]
    exact hstack
  | binary bi ni hft hptr hle helf hi =>
    obtain ⟨m, hm⟩ := hp.mapTo programVirtualAddress (K.processAt process).ptr
      (pagingAlignAddress (Word.add (K.processAt process).ptr (K.processAt process).size))
      pagingUserWriteable
    have hbinary : processMapBinary K process = (allOk, K.withMem m) := by
      unfold processMapBinary
      dsimp only
      rw [hm]
    unfold processMapMemory
    rw [hft, hbinary]
    exact hstack

/-! ## The end of a load -/

/-- The structure of a task that is initialised and linked to no other. -/
structure FreshTask (v : Task) (process : Nat) : Prop where
  process : v.process = process
  next : v.next = 0
  prev : v.prev = 0
  registers : ∃ ip, v.registers = taskRegisters ip

/-- A task that is initialised belongs to the process, and is linked to no other. -/
theorem taskInit_queue (K : Kernel σ) (task process : Nat) :
    (taskInit K task process).1 = -eio ∨ ((taskInit K task process).1 = allOk ∧
      ∃ v : Task, FreshTask v process ∧
        (taskInit K task process).2.queue = K.queue.set task v) := by
  unfold taskInit
  obtain ⟨⟨pd, k⟩, hp⟩ : ∃ r, pagingNew4gb K.kmem (pagingIsPresent ||| pagingAccessFromAll) = r :=
    ⟨_, rfl⟩
  rw [hp]
  dsimp only
  by_cases hpd : pd = 0
  · rw [if_pos hpd]
    exact .inl rfl
  rw [if_neg hpd]
  split
  · exact .inr ⟨rfl, _, ⟨rfl, rfl, rfl, _, rfl⟩, rfl⟩
  · exact .inr ⟨rfl, _, ⟨rfl, rfl, rfl, _, rfl⟩, rfl⟩

/-- A new task of the process is put at the end of the list. -/
theorem taskNew_queue {t : Nat} (ht : t < 25600) (h : taskNew K process = (blockAddr t, K')) :
    ∃ v : Task, FreshTask v process ∧
      K'.queue = taskLink (K.queue.set (blockAddr t) v) (blockAddr t) := by
  -- an error is no address of the heap
  have herr : ∀ res : Int, -100 ≤ res → res < 0 → Word.ofInt res ≠ blockAddr t := fun res h1 h2 he => by
    have hneg := Word.ofInt_neg h2 (by omega)
    have hlt := blockAddr_lt ht
    omega
  unfold taskNew at h
  obtain ⟨⟨task, K₁⟩, hz⟩ : ∃ r, K.kzalloc sizeofTask = r := ⟨_, rfl⟩
  have hq₁ : K₁.queue = K.queue := by
    have : (K.kzalloc sizeofTask).2.queue = K.queue := rfl
    rwa [hz] at this
  rw [hz] at h
  dsimp only at h
  by_cases htask : task = 0
  · rw [if_pos htask] at h
    dsimp only at h
    rw [if_pos (by decide), Prod.mk.injEq] at h
    exact absurd h.1 (herr _ (by decide) (by decide))
  rw [if_neg htask] at h
  have hinit := taskInit_queue K₁ task process
  obtain ⟨⟨res, K₂⟩, hi⟩ : ∃ r, taskInit K₁ task process = r := ⟨_, rfl⟩
  rw [hi] at h hinit
  dsimp only at h hinit
  rcases hinit with rfl | ⟨rfl, v, hv, hqueue⟩
  · rw [if_pos (by decide), Prod.mk.injEq] at h
    exact absurd h.1 (herr _ (by decide) (by decide))
  · rw [if_neg (by decide), Prod.mk.injEq] at h
    obtain ⟨rfl, rfl⟩ := h
    refine ⟨v, hv, ?_⟩
    have hq : (if K₂.queue.head = 0 then K₂ else K₂.follow K₂.queue.tail).queue = K₂.queue := by
      split <;> rfl
    dsimp only
    rw [hq, hqueue, hq₁]

theorem taskNew_process {t : Nat} (ht : t < 25600) (h : taskNew K process = (blockAddr t, K')) :
    (K'.queue.task (blockAddr t)).process = process := by
  obtain ⟨v, hv, hqueue⟩ := taskNew_queue ht h
  rw [hqueue, taskLink_field Task.process (fun _ _ => rfl) (fun _ _ => rfl), TaskQueue.set_task,
    if_pos rfl, hv.process]

/-- The process is entered in the table of processes, and has no allocations yet. -/
structure Entered (K K' : Kernel σ) (process slot : Nat) : Prop where
  processes : K'.processes = Function.update K.processes slot process
  current : K'.currentProcess = K.currentProcess
  id : (K'.processAt process).id = slot
  fresh : ∀ i, (K'.processAt process).allocations i = {}

/-- The process is assembled, and not in the table of processes yet. -/
structure Assembled (K K' : Kernel σ) (process slot : Nat) : Prop where
  processes : K'.processes = K.processes
  current : K'.currentProcess = K.currentProcess
  id : (K'.processAt process).id = slot
  fresh : ∀ i, (K'.processAt process).allocations i = {}
  linked : ∃ v : Task, FreshTask v process ∧
    K'.queue = taskLink (K.queue.set (K'.processAt process).task v) (K'.processAt process).task

/-- The last calls of a load: the task, the directory and the mappings, whatever comes of them. -/
theorem Scope.taskAssembled (h : Scope owned rest K₀ K obj) {bp np out slot : Nat}
    (hprocess : process = blockAddr bp) (hbp : obj .process = some (bp, np)) (hnone : Untasked obj)
    (hprogram : ProgramAt K obj process)
    (hstack : ∃ b n, obj .stack = some (b, n) ∧ (K.processAt process).stack = blockAddr b ∧
      userProgramStackSize ≤ 4096 * n)
    (hrecords : ∀ i, (K.processAt process).allocations i = {} ∧ obj (.allocation i) = none)
    (hs : (Pandora.taskNew (K.setProcess process { K.processAt process with id := slot })
      process).2.kmem.Sound) :
    ∃ res K' obj' dir, ∃ table : Nat → Nat,
      (processLoadForSlot.task K out process slot =
        if res < 0 then (res, 0, processFreeProcess K' process)
        else (res, process,
          { K' with processes := Function.update K'.processes slot process })) ∧
      Assembled K K' process slot ∧ Live K' process obj' dir pagingUserWriteable table ∧
      Scope owned rest K₀ K' obj' ∧ K'.kmem.Sound := by
  obtain ⟨K₁, hK₁⟩ : ∃ K₁, K.setProcess process { K.processAt process with id := slot } = K₁ :=
    ⟨_, rfl⟩
  rw [hK₁] at hs
  have h₁ : Scope owned rest K₀ K₁ obj := by
    rw [← hK₁, hprocess]
    exact h.setProcess hbp _
  obtain ⟨t, n, K₂, chunk, dir, table, ht, htlt, honly, htask, h₂⟩ := h₁.taskNew hnone hs
  rw [ht] at hs
  have howner := taskNew_process htlt ht
  obtain ⟨v, hv, hlinked⟩ := taskNew_queue htlt ht
  obtain ⟨res, K₄, hmap, heq⟩ := processLoadForSlot_task_eq out htlt (hK₁ ▸ ht)
  obtain ⟨K₃, hK₃⟩ : ∃ K₃, K₂.setProcess process
    { K₂.processAt process with task := blockAddr t } = K₃ := ⟨_, rfl⟩
  rw [hK₃] at hmap
  obtain ⟨obj', hobj'⟩ : ∃ obj', withTask obj t n chunk dir table = obj' := ⟨_, rfl⟩
  rw [hobj'] at h₂
  have htable : ∀ i < 1024, obj' (.table i) = some (blockOf (table i), 1) := fun i hi => by
    rw [← hobj']
    unfold withTask pagingChunks
    dsimp only
    rw [if_pos hi, Option.some_or]
  have hbp' : obj' .process = some (bp, np) := by
    rw [← hobj', ← hbp]
    rfl
  have h₃ : Scope owned rest K₀ K₃ obj' := by
    rw [← hK₃, hprocess]
    exact h₂.setProcess hbp' _
  -- the process and its task
  have hat₃ : K₃.processAt process = { K.processAt process with id := slot, task := blockAddr t } := by
    have hproc₂ : K₂.processAt process = { K.processAt process with id := slot } := by
      rw [honly, ← hK₁]
      exact Function.update_self _ _ _
    rw [← hK₃]
    refine (Function.update_self _ _ _).trans ?_
    rw [hproc₂]
  have hqueue₃ : K₃.queue = K₂.queue := by
    rw [← hK₃]
    rfl
  have hmem₃ : K₃.mem = K₂.mem := by
    rw [← hK₃]
    rfl
  have hchunk₃ : (K₃.queue.task (K₃.processAt process).task).pageDirectory = chunk := by
    rw [hat₃, hqueue₃]
    exact htask.pageDirectory
  have hd₃ : ProcessDir K₃ process dir pagingUserWriteable table := by
    refine ⟨hmem₃ ▸ htask.pageDir, ?_⟩
    rw [hchunk₃, hmem₃]
    exact htask.chunkOf
  have hr : K₃.Remapped K₄ dir pagingUserWriteable table := by
    have := processMapMemory_remapped hd₃
    rwa [hmap] at this
  have h₄ := h₃.remapped hd₃.pageDir htable hr
  have hd₄ := hr.processDir hd₃
  have hproc₄ : K₄.processAt = K₃.processAt := hr.memOnly.processAt
  have hqueue₄ : K₄.queue = K₃.queue := hr.memOnly.queue
  have hchunk₄ : (K₄.queue.task (K₄.processAt process).task).pageDirectory = chunk := by
    rw [hqueue₄, hproc₄, hchunk₃]
  have hold₄ : K₄.processes = K.processes ∧ K₄.currentProcess = K.currentProcess := by
    rw [hr.memOnly.eq, ← hK₃]
    change K₂.processes = K.processes ∧ K₂.currentProcess = K.currentProcess
    rw [honly, ← hK₁]
    exact ⟨rfl, rfl⟩
  have helf₃ : K₃.elfFileAt = K.elfFileAt := by
    rw [← hK₃]
    change K₂.elfFileAt = K.elfFileAt
    rw [honly, ← hK₁]
    rfl
  have hprogram₃ : ProgramAt K₃ obj' process := by
    refine hprogram.congr ?_ ?_ ?_ ?_ ?_
    · rw [hat₃]
    · rw [hat₃]
    · rw [hat₃]
    · unfold Kernel.imageOf
      rw [helf₃]
    · rintro r (rfl | rfl)
      · rw [← hobj']
        rfl
      · rw [← hobj']
        rfl
  have hs₄ : K₄.kmem.Sound := by
    have hblock := htask.window.blockAddr
    have hplaced : Placed K₃ process t (blockOf chunk) :=
      ⟨by rw [hat₃], htlt, by rw [hqueue₃, htask.pageDirectory, hblock.2], hblock.1⟩
    have hquiet := h₃.mapMemory_quiet hplaced hprogram₃
    rw [hmap, ← hK₃] at hquiet
    exact hs.quiet hquiet
  refine ⟨res, K₄, obj', dir, table, heq,
    ⟨hold₄.1, hold₄.2, ?_, fun i => ?_, v, hv, ?_⟩, ?_, h₄, hs₄⟩
  · rw [hproc₄, hat₃]
  · rw [hproc₄, hat₃]
    exact (hrecords i).1
  · have hqueue₁ : K₁.queue = K.queue := by
      rw [← hK₁]
      rfl
    rw [hproc₄, hat₃, hqueue₄, hqueue₃, hlinked, hqueue₁]
  · refine ⟨hd₄, ⟨bp, np, hbp', hprocess⟩, ?_, ?_, ⟨t, n, ?_, ?_⟩, ?_, ?_, ?_, ?_, htable,
      fun i hi => .empty ?_ ?_, fun i => ⟨fun hi => ?_, fun _ => ?_⟩⟩
    · refine hprogram₃.congr ?_ ?_ ?_ ?_ fun _ _ => rfl
      · rw [hproc₄]
      · rw [hproc₄]
      · rw [hproc₄]
      · unfold Kernel.imageOf
        rw [hr.memOnly.elfFileAt]
    · obtain ⟨b, m, hb, hptr, hle⟩ := hstack
      refine ⟨b, m, ?_, ?_, hle⟩
      · rw [← hobj', ← hb]
        rfl
      · rw [hproc₄, hat₃]
        exact hptr
    · rw [← hobj']
      rfl
    · rw [hproc₄, hat₃]
    · rw [hqueue₄, hproc₄, hat₃, hqueue₃]
      exact howner
    · rw [hchunk₄]
      exact htask.window
    · rw [hchunk₄, ← hobj']
      rfl
    · rw [← hobj']
      rfl
    · rw [hproc₄, hat₃]
      exact (hrecords i).1
    · rw [← hobj', ← (hrecords i).2]
      rfl
    · rw [← hobj']
      unfold withTask pagingChunks
      dsimp only
      rw [if_neg (by omega), Option.none_or, Function.update_of_ne (by simp)]
      exact hnone.table i
    · rw [← hobj', ← (hrecords i).2]
      rfl

/-- The process is entered in the table of processes. -/
theorem Live.listed (h : Live K process obj dir f table) (processes : Nat → Nat) :
    Live { K with processes := processes } process obj dir f table where
  pageDir := h.pageDir
  chunk := h.chunk
  block := h.block
  program := h.program.congr rfl rfl rfl rfl fun _ _ => rfl
  stack := h.stack
  task := h.task
  owner := h.owner
  window := h.window
  chunkAt := h.chunkAt
  directory := h.directory
  tables := h.tables
  records := fun i hi => match h.records i hi with
    | .empty ha hobj => .empty ha hobj
    | .chain b n hc hobj => .chain b n hc hobj
  noOther := h.noOther

end

end Pandora
