import Pandora.Process.Isr80h
import Pandora.Process.Served
import Pandora.Process.World

/-!
# The allocations of all processes (`task/process.c`)

Runs of `process_malloc` and `process_free` by the processes in the table, in any order. Between the
calls no two records, of one process or of two, have the same pointer, and each record is a chain
of the heap by itself (`Unaliased`); a pointer that is freed leaves no page behind
(`UserCall.Revoked`). This takes sizes that round to a number of blocks and a heap that does not run
short: `process_malloc(0)` answers with a block that it has not taken, so two such calls answer alike.
-/

namespace Pandora

open ByteMem

section

variable {σ : Type} {owned : σ → Nat → Prop} {rest : Nat → Prop} {K₀ K K' : Kernel σ}
  {obj : Nat → Role → Option (Nat × Nat)} {dir : Nat → Nat} {table : Nat → Nat → Nat} {s i : Nat}

/-! ## The calls of the processes -/

/-- A call by the process in slot `s`. -/
inductive UserCall where
  | malloc (s size : Nat)
  | free (s ptr : Nat)

def UserCall.slot : UserCall → Nat
  | malloc s _ => s
  | free s _ => s

def UserCall.step (K : Kernel σ) : UserCall → Kernel σ
  | malloc s size => (processMalloc K (K.processes s) size).2
  | free s ptr => processFree K (K.processes s) ptr

/-- The caller is a process in the table. -/
def UserCall.Live (K : Kernel σ) (c : UserCall) : Prop :=
  c.slot < maxProcesses ∧ K.processes c.slot ≠ 0

theorem processFree_processes (K : Kernel σ) (process ptr : Nat) :
    (processFree K process ptr).processes = K.processes := by
  have hmap : ∀ virt phys physEnd flags,
      (K.mapTo process virt phys physEnd flags).2.processes = K.processes := fun _ _ _ _ => rfl
  unfold processFree
  split
  · rfl
  · rename_i index _
    have hprocesses := hmap ((K.processAt process).allocations index).ptr
      ((K.processAt process).allocations index).ptr
      (pagingAlignAddress (Word.add ((K.processAt process).allocations index).ptr
        ((K.processAt process).allocations index).size)) 0
    dsimp only
    generalize K.mapTo process _ _ _ _ = r at hprocesses ⊢
    split
    · exact hprocesses
    · exact hprocesses

/-- The table is as before, so a process that can call can call again. -/
theorem UserCall.Live.step {c c' : UserCall} (h : c.Live K) : c.Live (c'.step K) := by
  have hprocesses : (c'.step K).processes = K.processes := by
    cases c' with
    | malloc s size =>
      unfold UserCall.step
      exact processMalloc_processes K (K.processes s) size
    | free s ptr =>
      unfold UserCall.step
      exact processFree_processes K (K.processes s) ptr
  unfold UserCall.Live
  rw [hprocesses]
  exact h

theorem UserCall.steps_live {calls : List UserCall} (h : ∀ c ∈ calls, c.Live K) :
    Run.Steps UserCall.step UserCall.Live K calls := by
  induction calls generalizing K with
  | nil => trivial
  | cons c calls ih =>
    exact ⟨h c List.mem_cons_self, ih fun c' hc' => (h c' (List.mem_cons_of_mem c hc')).step⟩

/-- A size is for one block at least and does not wrap when it is rounded, and the heap does not run
short of its blocks. -/
def UserCall.Fits (K : Kernel σ) : UserCall → Prop
  | malloc _ size => 1 ≤ size ∧ size ≤ 2 ^ 32 - 4096 ∧ ¬ K.kmem.heap.RunsShort (blocksFor size)
  | free _ _ => True

/-! ## What a state should show -/

/-- Record `i` of the process in slot `s`. -/
def Kernel.record (K : Kernel σ) (s i : Nat) : ProcessAllocation :=
  (K.processAt (K.processes s)).allocations i

/-- It is a live allocation. -/
structure Kernel.HasRecord (K : Kernel σ) (s i : Nat) : Prop where
  slot : s < maxProcesses
  process : K.processes s ≠ 0
  index : i < maxProgramAllocations
  ptr : (K.record s i).ptr ≠ 0

/-- The page at `v` is present, and the user may write to it. -/
def Kernel.UserWriteable (K : Kernel σ) (process v : Nat) : Prop :=
  K.pageOf process v &&& pagingUserWriteable = pagingUserWriteable

theorem Kernel.UserWriteable.present {process v : Nat} (h : K.UserWriteable process v) :
    K.pageOf process v &&& pagingIsPresent = pagingIsPresent := by
  have hpresent : pagingUserWriteable &&& pagingIsPresent = pagingIsPresent := by decide
  unfold Kernel.UserWriteable at h
  calc K.pageOf process v &&& pagingIsPresent
      = (K.pageOf process v &&& pagingUserWriteable) &&& pagingIsPresent := by
        rw [Nat.and_assoc, hpresent]
    _ = pagingIsPresent := by rw [h, hpresent]

/-- Different records have different pointers, and the blocks of each are a chain of the heap that no
other chain meets. -/
structure Unaliased (K : Kernel σ) : Prop where
  pointers : ∀ {s i s' i'}, K.HasRecord s i → K.HasRecord s' i' →
    (K.record s i).ptr = (K.record s' i').ptr → s = s' ∧ i = i'
  alone : ∀ {s i}, K.HasRecord s i →
    ∃ b, LiveChain K.entries (K.record s i) b (blocksFor (K.record s i).size) ∧
      ∀ b' n', b ≠ b' → IsChain K.entries 25600 b' n' →
        b + blocksFor (K.record s i).size ≤ b' ∨ b' + n' ≤ b

/-- Where the call frees a recorded pointer, the user can write to none of its pages any more. -/
def UserCall.Revoked (K : Kernel σ) (c : UserCall) : Prop :=
  match c with
  | malloc _ _ => True
  | free s ptr => ∀ i, K.HasRecord s i → (K.record s i).ptr = ptr →
      ∀ v < 2 ^ 32, ptr ≤ v → v < ptr + 4096 * blocksFor (K.record s i).size →
        ¬ (c.step K).UserWriteable (K.processes s) v

/-! ## Every state of the world shows it -/

/-- The blocks of a record. -/
theorem World.recordBlocks (h : World owned rest K₀ K obj dir table) (hr : K.HasRecord s i) :
    ∃ b, obj s (.allocation i) = some (b, blocksFor (K.record s i).size) ∧
      LiveChain K.entries (K.record s i) b (blocksFor (K.record s i).size) := by
  have ho := h.holdings s hr.slot hr.process
  obtain ⟨b, hb⟩ := ho.blocks hr.index hr.ptr
  exact ⟨b, hb, ho.liveChain (h.scope.part s) hb⟩

theorem World.unaliased (h : World owned rest K₀ K obj dir table) : Unaliased K where
  pointers := by
    intro s i s' i' hr hr' he
    obtain ⟨b, hb, hc⟩ := h.recordBlocks hr
    obtain ⟨b', hb', hc'⟩ := h.recordBlocks hr'
    -- one pointer is one first block, and that belongs to one record
    have hbb : b = b' := blockAddr_inj.1 (hc.ptr.symm.trans (he.trans hc'.ptr))
    subst hbb
    have hroles := h.scope.inj (s, .allocation i) (s', .allocation i') b _ _ hb hb'
    cases hroles
    exact ⟨rfl, rfl⟩
  alone := by
    intro s i hr
    obtain ⟨b, -, hc⟩ := h.recordBlocks hr
    exact ⟨b, hc, fun b' n' hne hc' => hc.chain.disjoint hc' hne⟩

theorem World.revoked (h : World owned rest K₀ K obj dir table) {c : UserCall} (hc : c.Live K) :
    c.Revoked K := by
  cases c with
  | malloc s size => trivial
  | free s ptr =>
    intro i hr hptr v hv hlo hhi hwriteable
    have ho := h.holdings s hr.slot hr.process
    have hne : ptr ≠ 0 := fun h0 => hr.ptr (hptr.trans h0)
    have hfrees := (process_free_exact ho.toProcessDir h.scope.tidy.kernel
      (ho.toRecords (h.scope.part s)) ptr).2 i hr.index hptr hne
    have hpage := hfrees.pages v hv
    rw [if_pos ⟨hlo, hhi⟩] at hpage
    have hpresent := Kernel.UserWriteable.present hwriteable
    unfold UserCall.step at hpresent
    dsimp only at hpresent
    rw [hpage] at hpresent
    exact absurd hpresent (by decide)

/-- A call of a process leaves the world in order. -/
theorem World.userCall (h : World owned rest K₀ K obj dir table) {c : UserCall} (hc : c.Live K)
    (hfits : c.Fits K) : ∃ obj', World owned rest K₀ (c.step K) obj' dir table := by
  obtain ⟨hs, hne⟩ := hc
  cases c with
  | malloc s size =>
    obtain ⟨h1, h2, hshort⟩ := hfits
    obtain ⟨p, K', he, -, -, -, hcases⟩ := h.processMalloc hs hne h1 h2 hshort
    have hstep : (UserCall.malloc s size).step K = K' := congrArg Prod.snd he
    rw [hstep]
    rcases hcases with ⟨-, h'⟩ | ⟨b, i, -, -, h'⟩
    · exact ⟨_, h'⟩
    · exact ⟨_, h'⟩
  | free s ptr =>
    obtain ⟨K', he, -, -, -, hcases⟩ := h.processFree hs hne ptr
    have hstep : (UserCall.free s ptr).step K = K' := he
    rw [hstep]
    rcases hcases with ⟨-, h'⟩ | ⟨b, i, n, -, -, -, h'⟩
    · exact ⟨_, h'⟩
    · exact ⟨_, h'⟩

/-- **User allocations never alias and are really revoked**, in every run of calls that fit. -/
theorem user_allocations_unaliased (h : World owned rest K₀ K obj dir table) {calls : List UserCall}
    (hlive : ∀ c ∈ calls, c.Live K) (hfits : Run.Steps UserCall.step UserCall.Fits K calls) :
    Unaliased K ∧ Run.Steps UserCall.step (fun K c => Unaliased (c.step K) ∧ c.Revoked K) K calls := by
  refine ⟨h.unaliased, ?_⟩
  refine Run.Steps.of_inv (I := fun K => ∃ obj, World owned rest K₀ K obj dir table) ?_ ?_ ⟨obj, h⟩
    ((UserCall.steps_live hlive).and hfits)
  · rintro K c ⟨obj, h⟩ ⟨hc, hf⟩
    exact h.userCall hc hf
  · rintro K c ⟨obj, h⟩ ⟨hc, hf⟩
    obtain ⟨obj', h'⟩ := h.userCall hc hf
    exact ⟨h'.unaliased, h.revoked hc⟩

/-- The answer of `kzalloc` depends on the heap alone. -/
theorem kzalloc_answer {k k' : Kmem} (h : k'.heap = k.heap) (size : Nat) :
    (kzalloc k' size).1 = (kzalloc k size).1 := by
  unfold kzalloc kmalloc
  dsimp only
  rw [h]
  split <;> rfl

/-- `process_malloc(0)` records a pointer to a block that stays free. -/
theorem processMalloc_zero {process : Nat} (hk : K.kmem.heap.Kernel) (hlast : Free (K.entries 25599))
    (hi : i < maxProgramAllocations) (hempty : ((K.processAt process).allocations i).ptr = 0)
    (hlowest : ∀ j < i, ((K.processAt process).allocations j).ptr ≠ 0) :
    ∃ b K', kzalloc K.kmem 0 = (blockAddr b, K.kmem.take b 0 0) ∧
      processMalloc K process 0 = (blockAddr b, K') ∧ K'.kmem.heap = K.kmem.heap ∧
      K'.processes = K.processes ∧
      K'.processAt = Function.update K.processAt process
        ((K.processAt process).setAllocation i ⟨blockAddr b, 0⟩) := by
  rcases kzalloc_zero hk with ⟨-, hno⟩ | ⟨b, hb, -, he⟩
  · exact absurd hlast hno
  obtain ⟨j, hj, hindex, hj0, hbefore⟩ := processFindFreeAllocationIndex_of ⟨i, hi, hempty⟩
  have hji : j = i := by
    rcases Nat.lt_trichotomy j i with h | h | h
    · exact absurd hj0 (hlowest j h)
    · exact h
    · exact absurd hempty (hbefore i h)
  subst hji
  obtain ⟨K₁, hK₁⟩ : ∃ K₁, ({ K with kmem := K.kmem.take b 0 0 } : Kernel σ) = K₁ := ⟨_, rfl⟩
  have hz : K.kzalloc 0 = (blockAddr b, K₁) := by
    unfold Kernel.kzalloc
    rw [he, ← hK₁]
  have hproc₁ : K₁.processAt = K.processAt ∧ K₁.processes = K.processes := by
    rw [← hK₁]
    exact ⟨rfl, rfl⟩
  have hheap₁ : K₁.kmem.heap = K.kmem.heap := by
    rw [← hK₁]
    exact markBlocksTaken_zero (by omega)
  -- no page is mapped
  have haddr : blockAddr b % 4096 = 0 ∧ blockAddr b < 2 ^ 32 := by
    unfold blockAddr
    omega
  have hend : pagingAlignAddress (Word.add (blockAddr b) 0) = blockAddr b := by
    rw [Word.add_of_lt (by omega), Nat.add_zero, pagingAlignAddress_eq (by omega)]
    omega
  obtain ⟨K₂, hmap, hk₂, -⟩ := K₁.mapTo_empty process haddr.1 haddr.2 pagingUserWriteable
  have hproc₂ : K₂.processAt = K.processAt := hk₂.processAt.trans hproc₁.1
  refine ⟨b, K₂.setProcess process ((K₂.processAt process).setAllocation j ⟨blockAddr b, 0⟩), he, ?_,
    hk₂.heap.trans hheap₁, ?_, ?_⟩
  · unfold processMalloc
    rw [hz]
    dsimp only
    rw [if_neg (blockAddr_ne_zero b), hproc₁.1, hindex, if_neg (show ¬ (j : Int) < 0 by omega), hend,
      hmap, Int.toNat_natCast]
    exact if_neg (show ¬ allOk < 0 by decide)
  · have hprocesses : K₂.processes = K₁.processes := by rw [hk₂.eq]
    exact hprocesses.trans hproc₁.2
  · rw [hproc₂]
    unfold Kernel.setProcess
    rw [hproc₂]

/-- **Two allocations of no bytes have one pointer.** -/
theorem malloc_zero_twice (hk : K.kmem.heap.Kernel) (hlast : Free (K.entries 25599))
    (hs : s < maxProcesses) (hne : K.processes s ≠ 0) (h0 : (K.record s 0).ptr = 0)
    (h1 : (K.record s 1).ptr = 0) :
    ¬ Unaliased (Run.exec UserCall.step K [.malloc s 0, .malloc s 0]) := by
  obtain ⟨p, hp⟩ : ∃ p, K.processes s = p := ⟨_, rfl⟩
  unfold Kernel.record at h0 h1
  rw [hp] at hne h0 h1
  -- the first call takes the first record
  obtain ⟨b, K₁, hz₁, he₁, hheap₁, hprocesses₁, hproc₁⟩ := processMalloc_zero (i := 0) hk hlast
    (by decide) h0 (by omega)
  have hrecord₁ : ∀ j, (K₁.processAt p).allocations j =
      if j = 0 then ⟨blockAddr b, 0⟩ else (K.processAt p).allocations j := fun j => by
    rw [hproc₁, Function.update_self]
    unfold Process.setAllocation
    dsimp only
    rw [Function.update_apply]
  have hlast₁ : Free (K₁.entries 25599) := by
    unfold Kernel.entries
    rw [hheap₁]
    exact hlast
  -- the second call takes the second record, and the same block
  have hempty₁ : ((K₁.processAt p).allocations 1).ptr = 0 := by
    rw [hrecord₁, if_neg (by decide), h1]
  obtain ⟨b', K₂, hz₂, he₂, -, hprocesses₂, hproc₂⟩ := processMalloc_zero (hheap₁ ▸ hk) hlast₁
    (by decide) hempty₁
    (fun j hj => by
      rw [hrecord₁, if_pos (by omega)]
      exact blockAddr_ne_zero b)
  have hsame : blockAddr b = blockAddr b' := by
    calc blockAddr b = (kzalloc K.kmem 0).1 := by rw [hz₁]
      _ = (kzalloc K₁.kmem 0).1 := (kzalloc_answer hheap₁ 0).symm
      _ = blockAddr b' := by rw [hz₂]
  have hslot₁ : K₁.processes s = p := by rw [hprocesses₁, hp]
  have hslot₂ : K₂.processes s = p := by rw [hprocesses₂, hslot₁]
  have hrun : Run.exec UserCall.step K [.malloc s 0, .malloc s 0] = K₂ := by
    rw [Run.exec_cons, Run.exec_cons, Run.exec_nil]
    unfold UserCall.step
    dsimp only
    rw [hp, he₁, hslot₁, he₂]
  have hptr : (K₂.record s 0).ptr = blockAddr b ∧ (K₂.record s 1).ptr = blockAddr b' := by
    unfold Kernel.record
    rw [hslot₂, hproc₂, Function.update_self]
    unfold Process.setAllocation
    dsimp only
    rw [Function.update_self, Function.update_of_ne (by decide), hrecord₁, if_pos rfl]
    exact ⟨rfl, rfl⟩
  have hhas : ∀ i, i < maxProgramAllocations → (K₂.record s i).ptr ≠ 0 → K₂.HasRecord s i :=
    fun i hi hne' => ⟨hs, by rw [hslot₂]; exact hne, hi, hne'⟩
  rw [hrun]
  intro h
  have hrecords := h.pointers
    (hhas 0 (by decide) (by rw [hptr.1]; exact blockAddr_ne_zero b))
    (hhas 1 (by decide) (by rw [hptr.2]; exact blockAddr_ne_zero b')) (by rw [hptr.1, hptr.2, hsame])
  exact absurd hrecords.2 (by decide)

end

/-! ## A process in the table -/

/-- The kernel with one process: its directory, tables, chunk and task, the process, a program of 100
bytes, and the stack. -/
def livingKernel : Kernel Unit where
  kmem := {
    heap := {
      saddr := 0x01000000
      table := {
        entries := fun i =>
          if i < 1027 then chainEntry 1 0
          else if i < 1030 then chainEntry 3 (i - 1027)
          else if i < 1031 then chainEntry 1 0
          else if i < 1035 then chainEntry 4 (i - 1031)
          else entryFree
        total := 25600 } }
    mem := freshTaskKernel.kmem.mem }
  queue := {
    task := fun _ => { pageDirectory := blockAddr 1025, process := blockAddr 1027 }
    head := blockAddr 1026
    tail := blockAddr 1026
    current := blockAddr 1026 }
  processAt := fun _ => {
    task := blockAddr 1026
    filetype := .binary
    ptr := blockAddr 1030
    stack := blockAddr 1031
    size := 100 }
  elfFileAt := fun _ => {}
  processes := fun i => if i = 0 then blockAddr 1027 else 0
  currentProcess := blockAddr 1027
  files := ()

/-- What it holds. -/
def livingHolds : Role → Option (Nat × Nat)
  | .process => some (1027, 3)
  | .elfFile => none
  | .image => some (1030, 1)
  | .stack => some (1031, 4)
  | .task => some (1026, 1)
  | .chunk => some (1025, 1)
  | .directory => some (0, 1)
  | .table i => if i < 1024 then some (i + 1, 1) else none
  | .allocation _ => none

/-- Whose block begins an allocation. -/
def livingRole (b : Nat) : Role :=
  if b = 0 then .directory
  else if b < 1025 then .table (b - 1)
  else if b = 1025 then .chunk
  else if b = 1026 then .task
  else if b < 1030 then .process
  else if b = 1030 then .image
  else .stack

theorem livingHolds_role {r : Role} {b n : Nat} (h : livingHolds r = some (b, n)) :
    livingRole b = r := by
  cases r with
  | table i =>
    unfold livingHolds at h
    dsimp only at h
    by_cases hi : i < 1024
    · rw [if_pos hi] at h
      cases h
      unfold livingRole
      rw [if_neg (by omega), if_pos (by omega), Nat.add_sub_cancel]
    · rw [if_neg hi] at h
      cases h
  | elfFile => cases h
  | allocation i => cases h
  | process => cases h; rfl
  | image => cases h; rfl
  | stack => cases h; rfl
  | task => cases h; rfl
  | chunk => cases h; rfl
  | directory => cases h; rfl

theorem livingKernel_chain {r : Role} {b n : Nat} (h : livingHolds r = some (b, n)) :
    b + n ≤ 25600 ∧ IsChain livingKernel.entries 25600 b n := by
  have hone : ∀ b, b < 1027 → IsChain livingKernel.entries 25600 b 1 := fun b hb =>
    ⟨Nat.le_refl 1, by omega, fun k hk _ => by
      obtain rfl : k = 0 := by omega
      exact if_pos hb⟩
  cases r with
  | table i =>
    unfold livingHolds at h
    dsimp only at h
    by_cases hi : i < 1024
    · rw [if_pos hi] at h
      cases h
      exact ⟨by omega, hone _ (by omega)⟩
    · rw [if_neg hi] at h
      cases h
  | elfFile => cases h
  | allocation i => cases h
  | process =>
    cases h
    refine ⟨by decide, by decide, by decide, fun k hk _ => ?_⟩
    have hentry : livingKernel.entries (1027 + k) = chainEntry 3 (1027 + k - 1027) :=
      (if_neg (by omega)).trans (if_pos (by omega))
    rw [hentry, Nat.add_sub_cancel_left]
  | image =>
    cases h
    refine ⟨by decide, by decide, by decide, fun k hk _ => ?_⟩
    obtain rfl : k = 0 := by omega
    rfl
  | stack =>
    cases h
    refine ⟨by decide, by decide, by decide, fun k hk _ => ?_⟩
    have hentry : livingKernel.entries (1031 + k) = chainEntry 4 (1031 + k - 1031) :=
      (if_neg (by omega)).trans ((if_neg (by omega)).trans ((if_neg (by omega)).trans
        (if_pos (by omega))))
    rw [hentry, Nat.add_sub_cancel_left]
  | task => cases h; exact ⟨by decide, hone _ (by decide)⟩
  | chunk => cases h; exact ⟨by decide, hone _ (by decide)⟩
  | directory => cases h; exact ⟨by decide, hone _ (by decide)⟩

theorem livingKernel_free {b : Nat} (h : 1035 ≤ b) : livingKernel.entries b = entryFree :=
  (if_neg (by omega)).trans ((if_neg (by omega)).trans ((if_neg (by omega)).trans
    (if_neg (by omega))))

/-- Its blocks are the first 1035. -/
theorem livingKernel_inChunk {b : Nat} (h : b < 1035) : ∃ r, InChunk (livingHolds r) b := by
  by_cases h0 : b = 0
  · exact ⟨.directory, 0, 1, rfl, by omega, by omega⟩
  by_cases h1 : b < 1025
  · refine ⟨.table (b - 1), b, 1, ?_, by omega, by omega⟩
    unfold livingHolds
    dsimp only
    rw [if_pos (by omega), Nat.sub_add_cancel (by omega)]
  by_cases h2 : b = 1025
  · exact ⟨.chunk, 1025, 1, rfl, by omega, by omega⟩
  by_cases h3 : b = 1026
  · exact ⟨.task, 1026, 1, rfl, by omega, by omega⟩
  by_cases h4 : b < 1030
  · exact ⟨.process, 1027, 3, rfl, by omega, by omega⟩
  by_cases h5 : b = 1030
  · exact ⟨.image, 1030, 1, rfl, by omega, by omega⟩
  · exact ⟨.stack, 1031, 4, rfl, by omega, by omega⟩

theorem livingKernel_holdings :
    Holdings livingKernel (blockAddr 1027) livingHolds 0x01000000 pagingUserWriteable
      (fun i => blockAddr (i + 1)) where
  pageDir := freshTaskKernel_pageDir
  chunk := freshTaskKernel_chunk
  task := ⟨1026, 1, rfl, rfl⟩
  window := inWindow_blockAddr (b := 1025) (by decide)
  chunkAt := rfl
  directory := rfl
  tables := by
    intro i hi
    have hblock : blockOf (blockAddr (i + 1)) = i + 1 := by
      unfold blockOf blockAddr
      omega
    rw [hblock]
    exact if_pos hi
  block := ⟨1027, 3, rfl, rfl⟩
  program := .binary 1030 1 rfl rfl (by decide) rfl rfl
  stack := ⟨1031, 4, rfl, rfl, by decide⟩
  records := fun i _ => .empty rfl
  noOther := fun i => ⟨fun hi => if_neg (by omega), fun _ => rfl⟩

theorem livingKernel_world :
    World noBlocks (fun _ => False) livingKernel livingKernel
      (fun s r => if s = 0 then livingHolds r else none) (fun _ => 0x01000000)
      (fun _ i => blockAddr (i + 1)) where
  scope := by
    have hzero : ∀ {i : Nat × Role} {c : Nat × Nat},
        (if i.1 = 0 then livingHolds i.2 else none) = some c → i.1 = 0 ∧ livingHolds i.2 = some c := by
      intro i c h
      by_cases hi : i.1 = 0
      · rw [if_pos hi] at h
        exact ⟨hi, h⟩
      · rw [if_neg hi] at h
        cases h
    refine ⟨⟨⟨rfl, rfl⟩, fun b _ hf => ?_, fun _ h => absurd h id⟩, fun i b n h => ?_,
      fun i i' b n n' h h' => ?_, fun _ _ _ => ⟨id, id⟩, fun _ h => absurd h id,
      fun _ h => absurd h id, fun b hb hf => .inr (.inr ?_)⟩
    · by_cases hb : b < 1035
      · obtain ⟨r, c, n, hr, hlo, hhi⟩ := livingKernel_inChunk hb
        obtain ⟨hle, hc⟩ := livingKernel_chain hr
        exact absurd hf (hc.not_free hlo hhi (by omega))
      · exact livingKernel_free (not_lt.1 hb)
    · exact livingKernel_chain (hzero h).2
    · obtain ⟨hi, hr⟩ := hzero h
      obtain ⟨hi', hr'⟩ := hzero h'
      exact Prod.ext (hi.trans hi'.symm) ((livingHolds_role hr).symm.trans (livingHolds_role hr'))
    · by_cases hlt : b < 1035
      · obtain ⟨r, hr⟩ := livingKernel_inChunk hlt
        exact ⟨(0, r), hr⟩
      · exact absurd (livingKernel_free (not_lt.1 hlt) ▸ free_entryFree) hf
  holdings := by
    intro s _ hne
    by_cases hs : s = 0
    · subst hs
      exact livingKernel_holdings
    · exact absurd (if_neg hs) hne
  id := by
    intro s _ hne
    by_cases hs : s = 0
    · exact hs.symm
    · exact absurd (if_neg hs) hne
  empty := by
    intro s h r
    by_cases hs : s = 0
    · subst hs
      exact absurd (h (by decide)) (blockAddr_ne_zero 1027)
    · exact if_neg hs

/-- It allocates two blocks and frees them. -/
def twoBlocks : List UserCall := [.malloc 0 5000, .free 0 (blockAddr 1035)]

theorem user_allocations_unaliased_two :
    Unaliased livingKernel ∧
      Run.Steps UserCall.step (fun K c => Unaliased (c.step K) ∧ c.Revoked K) livingKernel twoBlocks := by
  refine user_allocations_unaliased livingKernel_world (fun c hc => ?_) ⟨⟨?_, ?_, ?_⟩, trivial, trivial⟩
  · have hslot : c.slot = 0 := by
      rcases List.mem_cons.1 hc with rfl | hc
      · rfl
      · rw [List.mem_singleton.1 hc]
        rfl
    unfold UserCall.Live
    rw [hslot]
    exact ⟨by decide, blockAddr_ne_zero 1027⟩
  · decide
  · decide
  · rintro ⟨hno, -, -⟩
    refine hno ⟨1035, by decide, fun k _ => ?_⟩
    have hfree : livingKernel.entries (1035 + k) = entryFree := livingKernel_free (by omega)
    unfold Kernel.entries at hfree
    rw [hfree]
    exact free_entryFree

theorem user_allocations_aliased_zero :
    World noBlocks (fun _ => False) livingKernel livingKernel
        (fun s r => if s = 0 then livingHolds r else none) (fun _ => 0x01000000)
        (fun _ i => blockAddr (i + 1)) ∧
      (∀ c ∈ [UserCall.malloc 0 0, .malloc 0 0], c.Live livingKernel) ∧
      ¬ Unaliased (Run.exec UserCall.step livingKernel [.malloc 0 0, .malloc 0 0]) := by
  refine ⟨livingKernel_world, fun c hc => ?_, ?_⟩
  · have he : c = .malloc 0 0 := by simpa using hc
    rw [he]
    exact ⟨by decide, blockAddr_ne_zero 1027⟩
  · refine malloc_zero_twice ⟨rfl, rfl⟩ ?_ (by decide) (blockAddr_ne_zero 1027) rfl rfl
    rw [livingKernel_free (b := 25599) (by decide)]
    exact free_entryFree

end Pandora
