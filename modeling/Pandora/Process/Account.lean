import Pandora.Process.Calls
import Pandora.Process.Served

/-!
# What a process gives back (`task/process.c`)

`Account` keeps, beside the kernel, the blocks that were allocated on behalf of the process in each slot:
a call for the slot charges it with the blocks that are allocated after the call and were not before,
and what it frees it no longer holds. The blocks of the file layer are nobody's.

In a run of calls none of which runs short, each process holds exactly the blocks of its `World`
(`Account.Balanced`), so `process_terminate` frees all the blocks that the process holds and no others
(`process_gives_back`).
-/

namespace Pandora

open ByteMem

/-! ## Accounts -/

section

variable {σ : Type}

/-- The kernel, and the blocks that the process in slot `s` holds. -/
structure Account (σ : Type) where
  kernel : Kernel σ
  held : Nat → Nat → Prop

/-- No process has been loaded. -/
def Account.open (K : Kernel σ) : Account σ := ⟨K, fun _ _ => False⟩

/-- A call for slot `s` has led to `K'`. -/
def Account.charge (owned : σ → Nat → Prop) (A : Account σ) (s : Nat) (K' : Kernel σ) : Account σ where
  kernel := K'
  held := Function.update A.held s fun b =>
    K'.Allocated owned b ∧ (A.held s b ∨ ¬ A.kernel.Allocated owned b)

def Account.step (F : FileLayer σ) (owned : σ → Nat → Prop) (A : Account σ) (c : ProcessCall) :
    Account σ :=
  match c.step F A.kernel with
  | some K' => A.charge owned (c.slot A.kernel) K'
  | none => A

/-- A call that returns, and for which no allocation runs short. -/
structure Account.Fine (F : FileLayer σ) (A : Account σ) (c : ProcessCall) : Prop where
  valid : c.Valid A.kernel
  served : c.Served F A.kernel
  returns : ∃ K', c.step F A.kernel = some K'

/-- The addresses of what is allocated for process `s`: the structure, the stack, the program (an ELF
file and its image, or a raw image), the task, its page directory, and the recorded allocations. -/
inductive Kernel.PartOf (K : Kernel σ) (s : Nat) : Nat → Prop where
  | process : PartOf K s (K.processes s)
  | stack : PartOf K s (K.processAt (K.processes s)).stack
  | program : PartOf K s (K.processAt (K.processes s)).ptr
  | image : (K.processAt (K.processes s)).filetype = .elf →
      PartOf K s (K.elfFileAt (K.processAt (K.processes s)).ptr).elfMemory
  | task : PartOf K s (K.processAt (K.processes s)).task
  | chunk : PartOf K s (K.queue.task (K.processAt (K.processes s)).task).pageDirectory
  | directory : PartOf K s (paging4gbChunkGetDirectory K.mem
      (K.queue.task (K.processAt (K.processes s)).task).pageDirectory)
  | table (i : Nat) : i < 1024 → PartOf K s (read32 K.mem (Word.add (paging4gbChunkGetDirectory K.mem
      (K.queue.task (K.processAt (K.processes s)).task).pageDirectory) (4 * i)) &&& 0xFFFFF000)
  | allocation (i : Nat) : i < maxProgramAllocations →
      ((K.processAt (K.processes s)).allocations i).ptr ≠ 0 →
      PartOf K s ((K.processAt (K.processes s)).allocations i).ptr

/-- Process `s` is gone: the blocks that it held have become free, among them all that it points to,
and no others. -/
structure Account.GivenBack (A : Account σ) (s : Nat) (K' : Kernel σ) : Prop where
  slot : K'.processes = Function.update A.kernel.processes s 0
  files : K'.files = A.kernel.files
  freed : ∀ b < 25600, Free (K'.entries b) ↔ Free (A.kernel.entries b) ∨ A.held s b
  parts : ∀ p, A.kernel.PartOf s p → ∃ b < 25600, p = blockAddr b ∧ A.held s b

/-! ## What an account comes to -/

variable {F : FileLayer σ} {owned : σ → Nat → Prop} {rest : Nat → Prop} {K₀ K K' : Kernel σ}
  {obj : Nat → Role → Option (Nat × Nat)} {dir dir' : Nat → Nat} {table table' : Nat → Nat → Nat}
  {A : Account σ} {s b : Nat}

theorem World.allocated (h : World owned rest K₀ K obj dir table) {r : Role}
    (hr : InChunk (obj s r) b) : K.Allocated owned b := by
  have howned := (h.scope.apart (s, r) b hr).2
  obtain ⟨c, n, hobj, hlo, hhi⟩ := hr
  have hle := (h.scope.chain (s, r) c n hobj).1
  exact ⟨by omega, h.scope.not_free (i := (s, r)) hobj hlo hhi, howned⟩

/-- A block is of one process. -/
theorem World.one_slot (h : World owned rest K₀ K obj dir table) {s' : Nat} {r r' : Role}
    (hr : InChunk (obj s r) b) (hr' : InChunk (obj s' r') b) : s' = s := by
  obtain ⟨c, n, hobj, hlo, hhi⟩ := hr
  obtain ⟨c', n', hobj', hlo', hhi'⟩ := hr'
  by_contra hne
  have := h.scope.disjoint (i := (s, r)) (k := (s', r')) hobj hobj' fun he =>
    hne (congrArg Prod.fst he).symm
  omega

/-- What a call for slot `s` leaves there was there before, or is newly allocated. -/
theorem World.charged (h : World owned rest K₀ K obj dir table) {o : Role → Option (Nat × Nat)}
    (h' : World owned rest K₀ K' (Function.update obj s o) dir' table') (b : Nat) :
    (∃ r, InChunk (o r) b) ↔
      K'.Allocated owned b ∧ ((∃ r, InChunk (obj s r) b) ∨ ¬ K.Allocated owned b) := by
  have hself : Function.update obj s o s = o := Function.update_self _ _ _
  have hother : ∀ {s'}, s' ≠ s → Function.update obj s o s' = obj s' := fun hs =>
    Function.update_of_ne hs _ _
  constructor
  · rintro ⟨r, hr⟩
    have hr' : InChunk (Function.update obj s o s r) b := by rwa [hself]
    refine ⟨h'.allocated hr', or_iff_not_imp_right.2 fun hold => ?_⟩
    obtain ⟨hlt, hf, hown⟩ := not_not.1 hold
    rcases h.scope.cover b hlt hf with hrest | howned | ⟨⟨s', r'⟩, hi⟩
    · exact absurd hrest (h'.scope.apart (s, r) b hr').1
    · exact absurd howned hown
    · by_cases hs : s' = s
      · exact ⟨r', hs ▸ hi⟩
      · have hi' : InChunk (Function.update obj s o s' r') b := by rwa [hother hs]
        exact absurd (h'.one_slot hr' hi') hs
  · rintro ⟨⟨hlt, hf, hown⟩, hcases⟩
    rcases h'.scope.cover b hlt hf with hrest | howned | ⟨⟨s', r'⟩, hi⟩
    · -- the rest was allocated before, and is of no process
      rcases hcases with ⟨r, hr⟩ | hno
      · exact absurd hrest (h.scope.apart (s, r) b hr).1
      · exact absurd (h.scope.taken b hrest) hno
    · exact absurd howned hown
    · dsimp only at hi
      by_cases hs : s' = s
      · rw [hs, hself] at hi
        exact ⟨r', hi⟩
      · rw [hother hs] at hi
        rcases hcases with ⟨r, hr⟩ | hno
        · exact absurd (h.one_slot hr hi) hs
        · exact absurd (h.allocated hi) hno

/-- Each process holds the blocks of its world. -/
def Account.Balanced (owned : σ → Nat → Prop) (A : Account σ) : Prop :=
  ∃ K₀ rest obj dir table, World owned rest K₀ A.kernel obj dir table ∧
    ∀ s b, A.held s b ↔ ∃ r, InChunk (obj s r) b

theorem Account.balanced_open (ht : Tidy (owned K.files) K.kmem)
    (hnone : ∀ s < maxProcesses, K.processes s = 0) : (Account.open K).Balanced owned := by
  obtain ⟨rest, h⟩ := World.boot ht hnone
  exact ⟨K, rest, _, _, _, h, fun s b => ⟨False.elim, fun ⟨r, hr⟩ => inChunk_none b hr⟩⟩

/-- A call keeps the accounts in balance. -/
theorem Account.Balanced.step (hF : F.Sound owned) (hR : F.Regular) (h : A.Balanced owned)
    {c : ProcessCall} (hc : A.Fine F c) : (A.step F owned c).Balanced owned := by
  obtain ⟨K₀, rest, obj, dir, table, hw, hheld⟩ := h
  obtain ⟨K', he⟩ := hc.returns
  obtain ⟨o, dir', table', hw'⟩ := hw.call hF hR hc.valid hc.served he
  have hstep : A.step F owned c = A.charge owned (c.slot A.kernel) K' := by
    unfold Account.step
    rw [he]
  rw [hstep]
  refine ⟨K₀, rest, _, dir', table', hw', fun s b => ?_⟩
  unfold Account.charge
  dsimp only
  by_cases hs : s = c.slot A.kernel
  · subst hs
    rw [Function.update_self, Function.update_self, hheld]
    exact (hw.charged hw' b).symm
  · rw [Function.update_of_ne hs, Function.update_of_ne hs]
    exact hheld s b

/-- What a process points to is what it holds. -/
theorem Holdings.partOf {process d f : Nat} {t : Nat → Nat} {o : Role → Option (Nat × Nat)}
    (h : Holdings K process o d f t) (hs : Scope owned rest K₀ K o) (hp : K.processes s = process)
    {p : Nat} (hpart : K.PartOf s p) : ∃ b < 25600, p = blockAddr b ∧ ∃ r, InChunk (o r) b := by
  have hat : ∀ {r b n}, o r = some (b, n) → p = blockAddr b →
      ∃ b < 25600, p = blockAddr b ∧ ∃ r, InChunk (o r) b := fun {r b n} hr hpb =>
    ⟨b, (hs.pos hr).2, hpb, r, hs.first hr⟩
  have hwindow : ∀ {r a}, o r = some (blockOf a, 1) → InWindow a → p = a →
      ∃ b < 25600, p = blockAddr b ∧ ∃ r, InChunk (o r) b := fun {r a} hr ha hpa =>
    hat hr (hpa.trans ha.blockAddr.2.symm)
  have hdir : paging4gbChunkGetDirectory K.mem
      (K.queue.task (K.processAt process).task).pageDirectory = d := h.chunk.directory
  cases hpart with
  | process =>
    obtain ⟨b, n, hb, hbp⟩ := h.block
    exact hat hb (hp.trans hbp)
  | stack =>
    obtain ⟨b, n, hb, hbs, -⟩ := h.stack
    rw [hp] at hat ⊢
    exact hat hb hbs
  | program =>
    rw [hp] at hat ⊢
    cases h.program with
    | elf be ne bi ni _ hptr helf _ _ => exact hat helf hptr
    | binary bi ni _ hptr _ _ hi => exact hat hi hptr
  | image hft =>
    rw [hp] at hft hat ⊢
    cases h.program with
    | elf be ne bi ni _ hptr _ himage hi =>
      rw [hptr] at hat ⊢
      exact hat hi himage
    | binary bi ni hft' _ _ _ _ =>
      rw [hft'] at hft
      cases hft
  | task =>
    obtain ⟨b, n, hb, hbt⟩ := h.task
    rw [hp] at hat ⊢
    exact hat hb hbt
  | chunk =>
    rw [hp] at hwindow ⊢
    exact hwindow h.chunkAt h.window rfl
  | directory =>
    rw [hp] at hwindow ⊢
    exact hwindow h.directory h.pageDir.dirWindow hdir
  | table i hi =>
    rw [hp, hdir] at hwindow ⊢
    refine hwindow (h.tables i hi) (h.pageDir.window i hi) ?_
    rw [h.pageDir.entry_table hi, (h.pageDir.window i hi).block.2]
  | allocation i hi hne =>
    rw [hp] at hne hat ⊢
    obtain ⟨b, hb⟩ := h.blocks hi hne
    exact hat hb (h.record hb).2.2.1

theorem Account.Balanced.gives_back (h : A.Balanced owned) (hs : A.kernel.LiveSlot s) {s' : Nat}
    (hs' : A.kernel.LiveSlot s') (hne : s' ≠ s) :
    ∃ K', processTerminate A.kernel (A.kernel.processes s) = some K' ∧ A.GivenBack s K' := by
  obtain ⟨K₀, rest, obj, dir, table, hw, hheld⟩ := h
  obtain ⟨K', he, hslot, hfiles, -, -, hw'⟩ := hw.processTerminate hs.1 hs.2 fun _ =>
    ⟨s', hs'.1, hne, hs'.2⟩
  refine ⟨K', he, hslot, hfiles, fun b hb => ?_, fun p hp => ?_⟩
  · have hcharged := hw.charged hw' b
    have hnone : ¬ ∃ r : Role, InChunk (none : Option (Nat × Nat)) b := fun ⟨_, hr⟩ =>
      inChunk_none b hr
    rw [hheld]
    constructor
    · intro hfree
      by_contra hno
      obtain ⟨hf, hr⟩ := not_or.1 hno
      -- a block of another owner stays allocated
      rcases hw.scope.cover b hb hf with hrest | howned | ⟨⟨s'', r⟩, hi⟩
      · exact (hw'.scope.taken b hrest).2.1 hfree
      · rw [← hfiles] at howned
        exact (hw'.scope.tidy.owned b howned).2 hfree
      · have hss : s'' ≠ s := by
          rintro rfl
          exact hr ⟨r, hi⟩
        have hi' : InChunk (Function.update obj s (fun _ => none) s'' r) b := by
          rwa [Function.update_of_ne hss]
        exact (hw'.allocated hi').2.1 hfree
    · intro hcases
      by_contra hf'
      have hown' : ¬ owned K'.files b := by
        rw [hfiles]
        rcases hcases with hfree | ⟨r, hr⟩
        · exact fun ho => (hw.scope.tidy.owned b ho).2 hfree
        · exact (hw.allocated hr).2.2
      refine hnone (hcharged.2 ⟨⟨hb, hf', hown'⟩, ?_⟩)
      rcases hcases with hfree | hr
      · exact .inr fun ha => ha.2.1 hfree
      · exact .inl hr
  · obtain ⟨b, hb, hpb, hr⟩ := (hw.holdings s hs.1 hs.2).partOf (hw.scope.part s) rfl hp
    exact ⟨b, hb, hpb, (hheld s b).2 hr⟩

/-- **A process gives back all it took**, and nothing that is not its own, whatever it and the other
processes have done before. -/
theorem process_gives_back (hF : F.Sound owned) (hR : F.Regular) (ht : Tidy (owned K.files) K.kmem)
    (hnone : ∀ s < maxProcesses, K.processes s = 0) {calls : List ProcessCall}
    (hcalls : Run.Steps (Account.step F owned) (Account.Fine F) (.open K) calls)
    (hA : Run.exec (Account.step F owned) (.open K) calls = A) (hs : A.kernel.LiveSlot s) {s' : Nat}
    (hs' : A.kernel.LiveSlot s') (hne : s' ≠ s) :
    ∃ K', processTerminate A.kernel (A.kernel.processes s) = some K' ∧ A.GivenBack s K' := by
  have hbalanced := Run.Steps.inv (I := Account.Balanced owned) (fun _ _ hb hc => Account.Balanced.step hF hR hb hc)
    (Account.balanced_open ht hnone) hcalls
  rw [hA] at hbalanced
  exact hbalanced.gives_back hs hs' hne

end

/-! ## Two processes -/

theorem Kmem.Room.not_runsShort {k : Kmem} {n m : Nat} (h : k.Room n) (hm : n + m ≤ 25600) :
    ¬ k.heap.RunsShort m := by
  rintro ⟨hno, -, -⟩
  rw [h.kernel.total] at hno
  exact hno ⟨n, hm, fun i hi => h.free (n + i) (by omega) (by omega)⟩

section

variable {data : List UInt8}

/-- A load of a small file leaves a process in the first free slot. -/
theorem paddedElf_enters (hlen : data.length = 16) {K K₀ : Kernel Unit} {rest : Nat → Prop}
    {obj : Nat → Role → Option (Nat × Nat)} {dir : Nat → Nat} {table : Nat → Nat → Nat} {n s : Nat}
    (h : World noBlocks rest K₀ K obj dir table) (hroom : K.kmem.Room n) (hs : K.kmem.Sound)
    (hn : n + 1036 ≤ 25600) (hslot : s < maxProcesses) (hget : processGetFreeSlot K = s)
    (htail : K.queue.head ≠ 0 → ∃ b < 25600, K.queue.tail = blockAddr b) (filename : List UInt8)
    (out stale : Nat) :
    ∃ K' p, processLoad (wholeFile (paddedElf data)) K filename out stale = (allOk, p, K') ∧
      K'.kmem.Sound ∧ K'.kmem.Room (n + 1036) ∧ (∃ b < 25600, K'.queue.tail = blockAddr b) ∧ p ≠ 0 ∧
      Entered K K' p s ∧ ∃ obj dir table, World noBlocks rest K₀ K' obj dir table := by
  have hfree : K.processes s = 0 := by
    rcases processGetFreeSlot_cases K with ⟨i, -, hi, hzero, -⟩ | ⟨hno, -⟩
    · obtain rfl : i = s := Int.ofNat.inj (hi.symm.trans hget)
      exact hzero
    · have hneg : (0 : Int) ≤ -eistkn := by
        rw [← hno, hget]
        exact Int.natCast_nonneg s
      exact absurd hneg (by decide)
  have hserved : ∃ p K', processLoad (wholeFile (paddedElf data)) K filename out stale =
      (allOk, p, K') ∧ K'.kmem.Sound ∧ K'.kmem.Room (n + 1036) ∧ ∃ b < 25600, K'.queue.tail = blockAddr b :=
    processLoad_served hroom hs hn (oneSegment_elfImage smallPhdr_words) (by rw [paddedElf_length hlen]; decide)
      paddedElf_mapsAnywhere ⟨s, hslot, hfree⟩ htail
  obtain ⟨p, K', hload, hs', hroom', htail'⟩ := hserved
  obtain ⟨res, p', K'', he, hcases⟩ := h.processLoad (wholeFile_sound _)
    (paddedElf_regular hlen) (by rw [hload]; exact hs')
  rw [hload, Prod.mk.injEq, Prod.mk.injEq] at he
  obtain ⟨rfl, rfl, rfl⟩ := he
  rcases hcases with ⟨-, hp, slot, -, hget', -, hentered, obj', d, t, -, h'⟩ | ⟨hneg, -⟩
  · obtain rfl : slot = s := Int.ofNat.inj (hget'.symm.trans hget)
    exact ⟨K', p, hload, hs', hroom', htail', hp, hentered, _, _, _, h'⟩
  · exact absurd hneg (by decide)

end

/-- Two loads, and an allocation by the first process. -/
def twoLoads : List ProcessCall := [.load [0x73] 0 0, .load [0x73] 0 0, .malloc 0 5000]

/-- The kernel after these calls, with one small program. -/
theorem twoLoads_run {data : List UInt8} (hlen : data.length = 16) : ∃ A,
    Run.Steps (Account.step (wholeFile (paddedElf data)) noBlocks)
      (Account.Fine (wholeFile (paddedElf data))) (.open bootKernel) twoLoads ∧
    Run.exec (Account.step (wholeFile (paddedElf data)) noBlocks) (.open bootKernel) twoLoads = A ∧
    A.kernel.LiveSlot 0 ∧ A.kernel.LiveSlot 1 := by
  obtain ⟨F, hF⟩ : ∃ F, wholeFile (paddedElf data) = F := ⟨_, rfl⟩
  obtain ⟨rest, h₀⟩ :=
    World.boot (show Tidy (noBlocks bootKernel.files) bootKernel.kmem from bootKernel_tidy)
      fun s _ => rfl
  obtain ⟨K₁, p₁, he₁, hs₁, hroom₁, htail₁, hp₁, hentered₁, obj₁, dir₁, table₁, h₁⟩ :=
    paddedElf_enters hlen (s := 0) h₀ bootKmem_room ⟨rfl, rfl⟩ (by decide) (by decide) rfl
      (fun h => absurd rfl h) [0x73] 0 0
  have hprocesses₁ := hentered₁.processes
  have hget₁ : processGetFreeSlot K₁ = 1 := by
    have hfind : (List.range maxProcesses).find? (fun i => K₁.processes i = 0) = some 1 := by
      rw [hprocesses₁]
      refine List.find?_range_eq_some.2 ⟨rfl, by decide, fun j hj => ?_⟩
      obtain rfl : j = 0 := by omega
      simpa using hp₁
    unfold processGetFreeSlot
    rw [hfind]
    rfl
  obtain ⟨K₂, p₂, he₂, hs₂, hroom₂, -, hp₂, hentered₂, -⟩ :=
    paddedElf_enters hlen (s := 1) h₁ hroom₁ hs₁ (by decide) (by decide) hget₁ (fun _ => htail₁) [0x73] 0 0
  have hprocesses₂ := hentered₂.processes
  rw [hF] at he₁ he₂ ⊢
  have hlive : ∀ s < 2, K₂.LiveSlot s := fun s hs => by
    refine ⟨by unfold maxProcesses; omega, ?_⟩
    rw [hprocesses₂, hprocesses₁]
    rcases (show s = 0 ∨ s = 1 by omega) with rfl | rfl
    · exact hp₁
    · exact hp₂
  obtain ⟨A₁, hA₁⟩ : ∃ A₁, Account.step F noBlocks (.open bootKernel) (.load [0x73] 0 0) = A₁ :=
    ⟨_, rfl⟩
  have hk₁ : A₁.kernel = K₁ := by
    have hstep : (Account.step F noBlocks (.open bootKernel) (.load [0x73] 0 0)).kernel =
        (processLoad F bootKernel [0x73] 0 0).2.2 := rfl
    rw [← hA₁, hstep, he₁]
  obtain ⟨A₂, hA₂⟩ : ∃ A₂, Account.step F noBlocks A₁ (.load [0x73] 0 0) = A₂ := ⟨_, rfl⟩
  have hk₂ : A₂.kernel = K₂ := by
    have hstep : (Account.step F noBlocks A₁ (.load [0x73] 0 0)).kernel =
        (processLoad F A₁.kernel [0x73] 0 0).2.2 := rfl
    rw [← hA₂, hstep, hk₁, he₂]
  obtain ⟨A₃, hA₃⟩ : ∃ A₃, Account.step F noBlocks A₂ (.malloc 0 5000) = A₃ := ⟨_, rfl⟩
  have hlive₃ : ∀ s < 2, A₃.kernel.LiveSlot s := fun s hs => by
    have hk₃ : A₃.kernel = (processMalloc A₂.kernel (A₂.kernel.processes 0) 5000).2 := by
      rw [← hA₃]
      rfl
    unfold Kernel.LiveSlot
    rw [hk₃, processMalloc_processes, hk₂]
    exact hlive s hs
  refine ⟨A₃, ⟨⟨trivial, ?_, _, rfl⟩, ?_⟩, ?_, hlive₃ 0 (by decide), hlive₃ 1 (by decide)⟩
  · change (processLoad F bootKernel [0x73] 0 0).2.2.kmem.Sound
    rw [he₁]
    exact hs₁
  · rw [hA₁]
    refine ⟨⟨trivial, ?_, _, rfl⟩, ?_⟩
    · change (processLoad F A₁.kernel [0x73] 0 0).2.2.kmem.Sound
      rw [hk₁, he₂]
      exact hs₂
    · rw [hA₂]
      refine ⟨⟨⟨hk₂ ▸ hlive 0 (by decide), by decide, by decide⟩, ?_, _, rfl⟩, trivial⟩
      change ¬ A₂.kernel.kmem.heap.RunsShort (blocksFor 5000)
      rw [hk₂]
      exact hroom₂.not_runsShort (by decide)
  · unfold twoLoads
    rw [Run.exec_cons, Run.exec_cons, Run.exec_cons, Run.exec_nil, hA₁, hA₂, hA₃]

/-- The first process is terminated. -/
theorem process_gives_back_two : ∃ A K',
    Run.exec (Account.step (wholeFile (paddedElf (List.replicate 16 0))) noBlocks)
      (.open bootKernel) twoLoads = A ∧
    processTerminate A.kernel (A.kernel.processes 0) = some K' ∧ A.GivenBack 0 K' := by
  have hlen : (List.replicate 16 (0 : UInt8)).length = 16 := List.length_replicate
  obtain ⟨A, hcalls, hA, h0, h1⟩ := twoLoads_run hlen
  have hregular : (wholeFile (paddedElf (List.replicate 16 0))).Regular := paddedElf_regular hlen
  obtain ⟨K', he, hback⟩ := process_gives_back (wholeFile_sound _) hregular bootKernel_tidy
    (fun s _ => rfl) hcalls hA h0 h1 (by decide)
  exact ⟨A, K', hA, he, hback⟩

end Pandora
