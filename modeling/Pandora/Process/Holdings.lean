import Pandora.Process.Denied
import Pandora.Process.Program

/-!
# What a process holds

`Holdings K process obj dir f table`: the allocations in scope `obj` are those of the process, each in its
role, and the structures of the process point to them. It depends on the blocks of the process alone
(`Holdings.congr`). `process_malloc` adds the blocks of one record, or changes nothing
(`Scope.processMalloc`); `process_free` takes the blocks of one record away (`Scope.processFree`).
-/

namespace Pandora

open ByteMem

section

variable {σ : Type} {owned : σ → Nat → Prop} {rest : Nat → Prop} {K₀ K K' : Kernel σ}
  {obj : Role → Option (Nat × Nat)} {process dir f size : Nat} {table : Nat → Nat}

/-- The record `a` has blocks of its own, or it is an empty slot. -/
inductive Recorded (a : ProcessAllocation) : Option (Nat × Nat) → Prop where
  | empty : a = {} → Recorded a none
  | blocks (b : Nat) : 1 ≤ a.size → a.ptr = blockAddr b → Recorded a (some (b, blocksFor a.size))

/-- The task of the process, its page directory and the tables are in scope. -/
structure Tasked (K : Kernel σ) (process : Nat) (obj : Role → Option (Nat × Nat)) (dir f : Nat)
    (table : Nat → Nat) : Prop extends ProcessDir K process dir f table where
  task : ∃ b n, obj .task = some (b, n) ∧ (K.processAt process).task = blockAddr b
  window : InWindow (K.queue.task (K.processAt process).task).pageDirectory
  chunkAt : obj .chunk = some (blockOf (K.queue.task (K.processAt process).task).pageDirectory, 1)
  directory : obj .directory = some (blockOf dir, 1)
  tables : ∀ i < 1024, obj (.table i) = some (blockOf (table i), 1)

structure Holdings (K : Kernel σ) (process : Nat) (obj : Role → Option (Nat × Nat)) (dir f : Nat)
    (table : Nat → Nat) : Prop extends Tasked K process obj dir f table where
  block : ∃ b n, obj .process = some (b, n) ∧ process = blockAddr b
  program : ProgramAt K obj process
  stack : ∃ b n, obj .stack = some (b, n) ∧ (K.processAt process).stack = blockAddr b ∧
    userProgramStackSize ≤ 4096 * n
  records : ∀ i < maxProgramAllocations,
    Recorded ((K.processAt process).allocations i) (obj (.allocation i))
  noOther : ∀ i, (1024 ≤ i → obj (.table i) = none) ∧
    (maxProgramAllocations ≤ i → obj (.allocation i) = none)

/-! ## Where the parts are -/

theorem Tasked.heldDir (h : Tasked K process obj dir f table) (hs : Scope owned rest K₀ K obj) :
    HeldDir K process dir f table where
  toProcessDir := h.toProcessDir
  heap := hs.tidy.kernel
  chunkWindow := h.window
  chunkTaken := hs.not_free h.chunkAt (Nat.le_refl _) (Nat.lt_succ_self _)
  dirTaken := hs.not_free h.directory (Nat.le_refl _) (Nat.lt_succ_self _)
  tableTaken := fun i hi => hs.not_free (h.tables i hi) (Nat.le_refl _) (Nat.lt_succ_self _)

theorem Tasked.placed (h : Tasked K process obj dir f table) (hs : Scope owned rest K₀ K obj) :
    ∃ t c, Placed K process t c := by
  obtain ⟨t, n, ht, htask⟩ := h.task
  have hchunk := h.window.blockAddr
  rw [htask] at hchunk
  exact ⟨t, _, htask, (hs.pos ht).2, hchunk.2.symm, hchunk.1⟩

/-- Mapping on a directory in scope follows no bad pointer. -/
theorem Tasked.mapTo_quiet (h : Tasked K process obj dir f table) (hs : Scope owned rest K₀ K obj)
    (virt phys physEnd flags : Nat) :
    K.kmem.Quiet (K.mapTo process virt phys physEnd flags).2.kmem := by
  obtain ⟨t, c, hp⟩ := h.placed hs
  obtain ⟨m, hm⟩ := hp.mapTo virt phys physEnd flags
  rw [hm]
  exact ⟨rfl, rfl, rfl⟩

theorem Holdings.record {i b n : Nat} (h : Holdings K process obj dir f table)
    (hi : obj (.allocation i) = some (b, n)) :
    i < maxProgramAllocations ∧ 1 ≤ ((K.processAt process).allocations i).size ∧
      ((K.processAt process).allocations i).ptr = blockAddr b ∧
      n = blocksFor ((K.processAt process).allocations i).size := by
  have hlt : i < maxProgramAllocations := Nat.lt_of_not_le fun hge => by
    rw [(h.noOther i).2 hge] at hi
    cases hi
  have hr := h.records i hlt
  rw [hi] at hr
  cases hr with
  | blocks _ h1 hptr => exact ⟨hlt, h1, hptr, rfl⟩

/-- A record with a pointer has blocks. -/
theorem Holdings.blocks {i : Nat} (h : Holdings K process obj dir f table) (hi : i < maxProgramAllocations)
    (hne : ((K.processAt process).allocations i).ptr ≠ 0) :
    ∃ b, obj (.allocation i) = some (b, blocksFor ((K.processAt process).allocations i).size) := by
  obtain ⟨c, hc⟩ : ∃ c, obj (.allocation i) = c := ⟨_, rfl⟩
  have hr := h.records i hi
  rw [hc] at hr ⊢
  cases hr with
  | empty he =>
    rw [he] at hne
    exact absurd rfl hne
  | blocks b _ _ => exact ⟨b, rfl⟩

theorem Holdings.liveChain {i b n : Nat} (h : Holdings K process obj dir f table)
    (hs : Scope owned rest K₀ K obj) (hi : obj (.allocation i) = some (b, n)) :
    LiveChain K.entries ((K.processAt process).allocations i) b
      (blocksFor ((K.processAt process).allocations i).size) := by
  obtain ⟨hlt, -, hptr, rfl⟩ := h.record hi
  obtain ⟨hle, hc⟩ := hs.chain _ _ _ hi
  exact ⟨hptr, le_blocksFor _, hle, hc⟩

/-- The table of the process is in order. -/
theorem Holdings.toRecords (h : Holdings K process obj dir f table) (hs : Scope owned rest K₀ K obj) :
    Records K process where
  chain := fun i hi hne => by
    obtain ⟨b, hb⟩ := h.blocks hi hne
    exact ⟨(h.record hb).2.1, b, h.liveChain hs hb⟩
  distinct := fun i hi j hj hne he => by
    obtain ⟨b, hb⟩ := h.blocks hi hne
    obtain ⟨b', hb'⟩ := h.blocks hj (he ▸ hne)
    have hbb : b = b' := by
      rw [(h.record hb).2.2.1, (h.record hb').2.2.1] at he
      exact blockAddr_inj.1 he
    subst hbb
    have hroles := hs.inj _ _ _ _ _ hb hb'
    injection hroles
  empty := fun i hi hzero => by
    obtain ⟨c, hc⟩ : ∃ c, obj (.allocation i) = c := ⟨_, rfl⟩
    have hr := h.records i hi
    rw [hc] at hr
    cases hr with
    | empty he => exact he
    | blocks b _ hptr => exact absurd (hptr.symm.trans hzero) (blockAddr_ne_zero b)

/-! ## What it depends on -/

/-- The parts of a page directory. -/
def Role.Paging (r : Role) : Prop := r = .chunk ∨ r = .directory ∨ ∃ i, r = .table i

/-- The structures of the process are the same, and the blocks of its page directory. -/
structure SameOwn (K K' : Kernel σ) (obj : Role → Option (Nat × Nat)) : Prop where
  structs : ∀ r j, InChunk (obj r) j → SameStructs K K' j
  paging : ∀ r j, r.Paging → InChunk (obj r) j → SameBlock K.mem K'.mem j

theorem SameOwn.of_blocks (h : ∀ r j, InChunk (obj r) j → SameBlock K.mem K'.mem j ∧ SameStructs K K' j) :
    SameOwn K K' obj :=
  ⟨fun r j hj => (h r j hj).2, fun r j _ hj => (h r j hj).1⟩

theorem Scope.first {r : Role} {b n : Nat} (hs : Scope owned rest K₀ K obj)
    (hr : obj r = some (b, n)) : InChunk (obj r) b :=
  ⟨b, n, hr, Nat.le_refl b, by have := (hs.pos hr).1; omega⟩

/-- A page of the window in scope keeps its bytes. -/
theorem SameOwn.window {r : Role} {a : Nat} (h : SameOwn K K' obj) (hs : Scope owned rest K₀ K obj)
    (ha : InWindow a) (hp : r.Paging) (hr : obj r = some (blockOf a, 1)) :
    ∀ x, a ≤ x → x < a + 4096 → K'.mem x = K.mem x := fun x hx hx' => by
  have hblock := h.paging r _ hp (hs.first hr)
  unfold SameBlock at hblock
  rw [ha.blockAddr.2] at hblock
  exact hblock x hx hx'

theorem Holdings.processAt (h : Holdings K process obj dir f table) (hs : Scope owned rest K₀ K obj)
    (hsame : SameOwn K K' obj) : K'.processAt process = K.processAt process := by
  obtain ⟨b, n, hb, rfl⟩ := h.block
  exact (hsame.structs _ _ (hs.first hb)).process

theorem Holdings.congr (h : Holdings K process obj dir f table) (hs : Scope owned rest K₀ K obj)
    (hsame : SameOwn K K' obj) : Holdings K' process obj dir f table := by
  have hproc := h.processAt hs hsame
  have hchunk : (K'.queue.task (K'.processAt process).task).pageDirectory =
      (K.queue.task (K.processAt process).task).pageDirectory := by
    obtain ⟨t, n, ht, htask⟩ := h.task
    rw [hproc, htask]
    exact (hsame.structs _ _ (hs.first ht)).task
  have hprogram : ProgramAt K' obj process := by
    refine h.program.congr ?_ ?_ ?_ ?_ fun _ _ => rfl
    · rw [hproc]
    · rw [hproc]
    · rw [hproc]
    · cases h.program with
      | elf be ne bi ni _ hptr helf _ _ =>
        unfold Kernel.imageOf
        rw [hptr, (hsame.structs _ _ (hs.first helf)).elfFile]
      | binary bi ni _ hptr _ _ hi =>
        unfold Kernel.imageOf
        rw [hptr, (hsame.structs _ _ (hs.first hi)).elfFile]
  refine ⟨⟨⟨?_, ?_⟩, ?_, ?_, ?_, h.directory, h.tables⟩, h.block, hprogram, ?_, fun i hi => ?_,
    h.noOther⟩
  · exact h.pageDir.congr (hsame.window hs h.pageDir.dirWindow (.inr (.inl rfl)) h.directory)
  · rw [hchunk]
    refine ⟨(read32_congr fun j hj => ?_).trans h.chunk.directory, h.chunk.apart⟩
    exact hsame.window hs h.window (.inl rfl) h.chunkAt _ (by omega) (by omega)
  · rw [hproc]
    exact h.task
  · rw [hchunk]
    exact h.window
  · rw [hchunk]
    exact h.chunkAt
  · rw [hproc]
    exact h.stack
  · rw [hproc]
    exact h.records i hi

/-- The pages of the process are where they were. -/
theorem Holdings.pages (h : Holdings K process obj dir f table) (hs : Scope owned rest K₀ K obj)
    (hsame : SameOwn K K' obj) {v : Nat} (hv : v < 2 ^ 32) :
    K'.pageOf process v = K.pageOf process v := by
  rw [(h.congr hs hsame).toProcessDir.reads.1 v hv, h.toProcessDir.reads.1 v hv]
  exact pageEntry_congr (by omega) fun i hi =>
    hsame.window hs (h.pageDir.window i hi) (.inr (.inr ⟨i, rfl⟩)) (h.tables i hi)

/-- One record of the process changes. -/
theorem Holdings.setAllocation (h : Holdings K process obj dir f table) {i : Nat} {a : ProcessAllocation}
    {c : Option (Nat × Nat)} (hi : i < maxProgramAllocations)
    (hstate : K' = { K with
      kmem := K'.kmem
      processAt := Function.update K.processAt process ((K.processAt process).setAllocation i a) })
    (hdir : ProcessDir K' process dir f table) (ha : Recorded a c) :
    Holdings K' process (Function.update obj (.allocation i) c) dir f table := by
  have hproc : K'.processAt process = (K.processAt process).setAllocation i a := by
    rw [hstate]
    exact Function.update_self _ _ _
  have hqueue : K'.queue = K.queue := by rw [hstate]
  have hkeep : ∀ r, r ≠ .allocation i → Function.update obj (.allocation i) c r = obj r :=
    fun r hr => Function.update_of_ne hr _ _
  refine ⟨⟨hdir, ?_, ?_, ?_, ?_, fun j hj => ?_⟩, ?_, ?_, ?_, fun j hj => ?_, fun j => ⟨?_, ?_⟩⟩
  · rw [hkeep _ (by simp), hproc]
    exact h.task
  · rw [hqueue, hproc]
    exact h.window
  · rw [hkeep _ (by simp), hqueue, hproc]
    exact h.chunkAt
  · rw [hkeep _ (by simp)]
    exact h.directory
  · rw [hkeep _ (by simp)]
    exact h.tables j hj
  · rw [hkeep _ (by simp)]
    exact h.block
  · refine h.program.congr ?_ ?_ ?_ ?_ fun r hr => hkeep r ?_
    · rw [hproc]
      rfl
    · rw [hproc]
      rfl
    · rw [hproc]
      rfl
    · unfold Kernel.imageOf
      rw [hstate]
    · rcases hr with rfl | rfl
      · simp
      · simp
  · rw [hkeep _ (by simp), hproc]
    exact h.stack
  · rw [hproc]
    by_cases hj' : j = i
    · subst hj'
      rw [Function.update_self]
      unfold Process.setAllocation
      dsimp only
      rw [Function.update_self]
      exact ha
    · rw [hkeep _ (by simp [hj'])]
      unfold Process.setAllocation
      dsimp only
      rw [Function.update_of_ne hj']
      exact h.records j hj
  · rw [hkeep _ (by simp)]
    exact (h.noOther j).1
  · intro hj
    rw [hkeep _ (by simp; omega)]
    exact (h.noOther j).2 hj

/-! ## Release -/

theorem kfree_quiet {b : Nat} (hb : b < 25600) (k : Kmem) : k.Quiet (kfree k (blockAddr b)) := by
  unfold kfree
  dsimp only
  rw [follow_blockAddr hb]
  exact ⟨rfl, rfl, rfl⟩

/-- `process_free` for a recorded pointer takes the blocks of the record out of the scope. -/
theorem Scope.processFree (h : Scope owned rest K₀ K obj) (ho : Holdings K process obj dir f table)
    {i b n : Nat} (hi : obj (.allocation i) = some (b, n)) :
    Scope owned rest K₀ (processFree K process (blockAddr b))
        (Function.update obj (.allocation i) none) ∧
      Holdings (Pandora.processFree K process (blockAddr b)) process
        (Function.update obj (.allocation i) none) dir f table ∧
      Released K (Pandora.processFree K process (blockAddr b)) process dir f table i b n ∧
      K.kmem.Quiet (Pandora.processFree K process (blockAddr b)).kmem := by
  obtain ⟨hlt, -, -, hn⟩ := ho.record hi
  have hrecords := ho.toRecords h
  have hchain := ho.liveChain h hi
  have hspec := processFree_spec ho.toProcessDir h.tidy.kernel hrecords hlt hchain
  obtain ⟨K₁, hmap, hk₁, hm, hfree⟩ := processFree_recorded ho.toProcessDir hrecords hlt hchain
  obtain ⟨bp, np, hbp, hprocess⟩ := ho.block
  have hquiet := ho.mapTo_quiet h (blockAddr b) (blockAddr b) (pagingAlignAddress
    (Word.add (blockAddr b) ((K.processAt process).allocations i).size)) 0
  rw [hmap] at hquiet
  have h₁ : Scope owned rest K₀ K₁ obj := h.memOnly hk₁ fun j hj =>
    hm.sameBlock (h.taken j hj).1 (h.table_ne ho.pageDir ho.tables hj)
  have h₂ : Scope owned rest K₀ (K₁.setProcess process
      ((K.processAt process).setAllocation i {})) obj := by
    rw [hprocess]
    exact h₁.setProcess hbp _
  refine ⟨?_, ho.setAllocation hlt hspec.state (hspec.directory ho.toProcessDir) (.empty rfl),
    hn ▸ hspec, ?_⟩
  · rw [hfree]
    exact h₂.kfree hi
  · rw [hfree]
    exact hquiet.trans (kfree_quiet (h.pos hi).2 _)

/-! ## Allocation -/

/-- The blocks that `process_malloc` marked join the scope. -/
theorem Scope.malloced (h : Scope owned rest K₀ K obj) (ho : Holdings K process obj dir f table)
    {b i : Nat} (h1 : 1 ≤ size) (hm : Malloced K K' process size dir f table b i)
    (hi : obj (.allocation i) = none) :
    Scope owned rest K₀ K' (Function.update obj (.allocation i) (some (b, blocksFor size))) := by
  obtain ⟨n, hn⟩ : ∃ n, blocksFor size = n := ⟨_, rfl⟩
  have hpos := blocksFor_pos h1
  have hle := le_blocksFor size
  have hfits := hm.fits
  have hrun := hm.free
  have hheap := hm.heap
  rw [hn] at hpos hle hfits hrun hheap ⊢
  obtain ⟨bp, np, hbp, hprocess⟩ := ho.block
  have hentry : ∀ j, K'.entries j = if b ≤ j ∧ j < b + n then chainEntry n (j - b) else K.entries j := by
    intro j
    unfold Kernel.entries
    rw [hheap]
    exact markBlocksTaken_entries hpos (by omega) j
  obtain ⟨new, hnew⟩ : ∃ new : Role → Option (Nat × Nat),
      Function.update (fun _ : Role => none) (.allocation i) (some (b, n)) = new := ⟨_, rfl⟩
  have hself : new (.allocation i) = some (b, n) := by
    rw [← hnew]
    exact Function.update_self _ _ _
  have hother : ∀ r, r ≠ .allocation i → new r = none := fun r hr => by
    rw [← hnew, Function.update_of_ne hr]
  have honly : ∀ {r c}, new r = some c → r = .allocation i ∧ c = (b, n) := fun {r c} hr => by
    by_cases he : r = .allocation i
    · subst he
      rw [hself] at hr
      cases hr
      exact ⟨rfl, rfl⟩
    · rw [hother r he] at hr
      cases hr
  have hobj : Function.update obj (.allocation i) (some (b, n)) = fun r => (new r).or (obj r) := by
    funext r
    by_cases hr : r = .allocation i
    · subst hr
      rw [Function.update_self, hself, Option.some_or]
    · rw [Function.update_of_ne hr, hother r hr, Option.none_or]
  rw [hobj]
  refine h.extend ?_ ?_ (fun r hr => ?_) (fun r b' n' hr => ?_) (fun r j hj => ?_)
    (fun r r' b' n' n'' hr hr' => ?_) (fun j hj => ?_) fun j hj => ⟨fun x hx hx' => ?_, ?_⟩
  · rw [hm.state]
  · rw [hheap]
    exact h.tidy.kernel.markBlocksTaken b n
  · by_cases he : r = .allocation i
    · rw [he, hi]
    · exact absurd (hother r he) hr
  · obtain ⟨-, he⟩ := honly hr
    cases he
    refine ⟨hfits, hpos, by omega, fun k hk _ => ?_⟩
    rw [hentry, if_pos ⟨by omega, by omega⟩, Nat.add_sub_cancel_left]
  · obtain ⟨b', n', hr, hj, hj'⟩ := hj
    obtain ⟨-, he⟩ := honly hr
    cases he
    have := hrun (j - b) (by omega)
    rwa [Nat.add_sub_cancel' hj] at this
  · rw [(honly hr).1, (honly hr').1]
  · rw [hentry, if_neg fun hin => hj (.allocation i) ⟨b, n, hself, hin⟩]
  · -- the block is taken, so it is none of those and no table
    obtain ⟨hlt, htaken, -⟩ := h.taken j hj
    have hwin := inWindow_blockAddr hlt
    have hhi := hwin.hi
    refine hm.frame x (by omega) (fun t ht => ?_) ?_
    · have := hwin.disjoint (ho.pageDir.window t ht) (h.table_ne ho.pageDir ho.tables hj t ht)
      omega
    · have hblock : blockOf (blockAddr j) = j := by
        unfold blockOf blockAddr
        omega
      have := hwin.apart_run (hblock.symm ▸ htaken) hrun
      omega
  · have hjp := h.ne_of_rest hbp hj
    rw [hm.state]
    refine ⟨Function.update_of_ne (fun he => hjp ?_) _ _, rfl, rfl⟩
    exact blockAddr_inj.1 (he.trans hprocess)

/-- `process_malloc` where the heap does not run short: one record more, or nothing has changed. -/
theorem Scope.processMalloc (h : Scope owned rest K₀ K obj)
    (ho : Holdings K process obj dir f table) (h1 : 1 ≤ size) (h2 : size ≤ 2 ^ 32 - 4096)
    (hshort : ¬ K.kmem.heap.RunsShort (blocksFor size)) :
    ∃ p K', Pandora.processMalloc K process size = (p, K') ∧
      ((p = 0 ∧ K' = { K with kmem := K'.kmem } ∧ Scope owned rest K₀ K' obj ∧
          Holdings K' process obj dir f table ∧
          ∀ v < 2 ^ 32, K'.pageOf process v = K.pageOf process v) ∨
        ∃ b i, p = blockAddr b ∧ Malloced K K' process size dir f table b i ∧
          Scope owned rest K₀ K'
            (Function.update obj (.allocation i) (some (b, blocksFor size))) ∧
          Holdings K' process (Function.update obj (.allocation i) (some (b, blocksFor size)))
            dir f table) := by
  have hd := ho.heldDir h
  rcases kzalloc_served h.tidy.kernel h1 h2 hshort with ⟨b, hb, hfree, -, he⟩ | ⟨he, -⟩
  · by_cases hslot : ∃ i < maxProgramAllocations, ((K.processAt process).allocations i).ptr = 0
    · obtain ⟨b', i, K', hr, hm⟩ := processMalloc_spec hd h1 h2 ⟨b, hb, hfree⟩ hslot
      have hi : obj (.allocation i) = none := by
        have hrec := ho.records i hm.slot
        obtain ⟨c, hc⟩ : ∃ c, obj (.allocation i) = c := ⟨_, rfl⟩
        rw [hc] at hrec ⊢
        cases hrec with
        | empty _ => rfl
        | blocks b _ hptr => exact absurd (hptr.symm.trans hm.empty) (blockAddr_ne_zero b)
      refine ⟨_, K', hr, .inr ⟨b', i, rfl, hm, h.malloced ho h1 hm hi, ?_⟩⟩
      exact ho.setAllocation hm.slot hm.state (hm.directory hd) (.blocks b' h1 rfl)
    · -- the blocks are given back
      have hused : ∀ i < maxProgramAllocations, ((K.processAt process).allocations i).ptr ≠ 0 :=
        fun i hi h0 => hslot ⟨i, hi, h0⟩
      have hlast := (ho.noOther maxProgramAllocations).2 (Nat.le_refl _)
      have h₁ := h.take hlast (blocksFor_pos h1) hb hfree (le_blocksFor size)
      have h₂ := h₁.kfree (Function.update_self _ _ _)
      rw [update_none hlast] at h₂
      have hmalloc : Pandora.processMalloc K process size = (0, Kernel.kfree
          { K with kmem := K.kmem.take b (blocksFor size) size } (blockAddr b)) := by
        unfold Pandora.processMalloc Kernel.kzalloc
        rw [he]
        dsimp only
        rw [if_neg (blockAddr_ne_zero b), processFindFreeAllocationIndex_none hused,
          if_pos (show -enomem < 0 by decide)]
      have hsame : SameOwn K (Kernel.kfree { K with kmem := K.kmem.take b (blocksFor size) size }
          (blockAddr b)) obj := .of_blocks fun r j hj => ⟨?_, ⟨rfl, rfl, rfl⟩⟩
      · exact ⟨0, _, hmalloc, .inl ⟨rfl, rfl, h₂, ho.congr h hsame,
          fun v hv => ho.pages h hsame hv⟩⟩
      · obtain ⟨b', n', hr, hlo, hhi⟩ := hj
        have hle := (h.chain _ _ _ hr).1
        have hmem : (Kernel.kfree { K with kmem := K.kmem.take b (blocksFor size) size }
            (blockAddr b)).mem = (K.kmem.take b (blocksFor size) size).mem := follow_mem _ _
        rw [hmem]
        exact take_sameBlock (by omega) (h.not_free hr hlo hhi) hb hfree (le_blocksFor size)
  · have hmalloc : Pandora.processMalloc K process size = (0, { K with kmem := K.kmem.deny }) := by
      unfold Pandora.processMalloc Kernel.kzalloc
      rw [he]
      rfl
    have hsame : SameOwn K { K with kmem := K.kmem.deny } obj := .of_blocks fun _ j _ =>
      ⟨.refl _ j, ⟨rfl, rfl, rfl⟩⟩
    exact ⟨0, _, hmalloc, .inl ⟨rfl, rfl, h.update rfl rfl fun j _ =>
      ⟨.refl _ j, ⟨rfl, rfl, rfl⟩⟩, ho.congr h hsame, fun v hv => ho.pages h hsame hv⟩⟩

end

end Pandora
