import Pandora.Paging.Teardown
import Pandora.Process.Live
import Pandora.Task.Queue

/-!
# What a process gives back

`process_free_process` frees what a process holds: the blocks of its records, its program, its stack,
the task with the page directory, and the process itself. Afterwards none of them is in scope, and no
null or error pointer was followed on the way (`Scope.freeProcess`). A process without a task, as a load
that fails leaves it, is given back in the same way (`Scope.freeUntasked`).
-/

namespace Pandora

open ByteMem

section

variable {σ ι : Type} {owned : σ → Nat → Prop} {rest : Nat → Prop} {K₀ K K' K'' : Kernel σ}

/-! ## Frames -/

/-- Memory and tasks were freed, through pointers that are in order. -/
structure Frees (K K' : Kernel σ) : Prop where
  processes : K'.processes = K.processes
  current : K'.currentProcess = K.currentProcess
  files : K'.files = K.files
  quiet : K.kmem.Quiet K'.kmem

theorem Frees.refl (K : Kernel σ) : Frees K K := ⟨rfl, rfl, rfl, .refl K.kmem⟩

theorem Frees.trans (h : Frees K K') (h' : Frees K' K'') : Frees K K'' where
  processes := h'.processes.trans h.processes
  current := h'.current.trans h.current
  files := h'.files.trans h.files
  quiet := h.quiet.trans h'.quiet

theorem frees_kfree {b : Nat} (hb : b < 25600) (K : Kernel σ) : Frees K (K.kfree (blockAddr b)) :=
  ⟨rfl, rfl, rfl, kfree_quiet hb K.kmem⟩

theorem frees_setProcess (K : Kernel σ) (process : Nat) (v : Process) :
    Frees K (K.setProcess process v) :=
  ⟨rfl, rfl, rfl, .refl K.kmem⟩

/-- Many allocations in scope are freed, one after the other. -/
theorem Scope.kfreeAll [DecidableEq ι] (block : ι → Nat) :
    ∀ (rs : List ι) {K : Kernel σ} {obj : ι → Option (Nat × Nat)},
      Scope owned rest K₀ K obj → rs.Nodup → (∀ r ∈ rs, ∃ n, obj r = some (block r, n)) →
      Scope owned rest K₀
          { K with kmem := (rs.map block).foldl (fun k b => Pandora.kfree k (blockAddr b)) K.kmem }
          (fun r => if r ∈ rs then none else obj r) ∧
        K.kmem.Quiet ((rs.map block).foldl (fun k b => Pandora.kfree k (blockAddr b)) K.kmem)
  | [], K, obj, h, _, _ => by
    refine ⟨?_, .refl K.kmem⟩
    simp only [List.not_mem_nil, if_false]
    exact h
  | r :: rs, K, obj, h, hnodup, hobj => by
    obtain ⟨hnot, hnodup⟩ := List.nodup_cons.1 hnodup
    obtain ⟨n, hr⟩ := hobj r List.mem_cons_self
    have hrest : ∀ r' ∈ rs, ∃ n, Function.update obj r none r' = some (block r', n) :=
      fun r' hr' => by
        rw [Function.update_of_ne fun he => hnot ((show r' = r from he) ▸ hr')]
        exact hobj r' (List.mem_cons_of_mem _ hr')
    obtain ⟨h', hquiet⟩ := Scope.kfreeAll block rs (h.kfree hr) hnodup hrest
    refine ⟨?_, (kfree_quiet (h.pos hr).2 K.kmem).trans hquiet⟩
    have hfamily : (fun r' => if r' ∈ r :: rs then none else obj r') =
        fun r' => if r' ∈ rs then none else Function.update obj r none r' := by
      funext r'
      by_cases he : r' = r
      · subst he
        rw [if_pos List.mem_cons_self, if_neg hnot, Function.update_self]
      · simp only [List.mem_cons, he, false_or, Function.update_of_ne he]
    rw [hfamily]
    exact h'

end

section

variable {σ : Type} {owned : σ → Nat → Prop} {rest : Nat → Prop} {K₀ K K' K'' : Kernel σ}
  {obj : Role → Option (Nat × Nat)} {process dir f : Nat} {table : Nat → Nat}

/-! ## The calls of `process_free_process` -/

/-- `process_free_process` on the stack. -/
def processFreeProcess.stack (K : Kernel σ) (process : Nat) : Kernel σ :=
  if (K.processAt process).stack ≠ 0 then
    (K.kfree (K.processAt process).stack).setProcess process { K.processAt process with stack := 0 }
  else K

/-- `process_free_process` on the task. -/
def processFreeProcess.task (K : Kernel σ) (process : Nat) : Kernel σ :=
  if (K.processAt process).task ≠ 0 then
    (taskFree K (K.processAt process).task).setProcess process
      { (taskFree K (K.processAt process).task).processAt process with task := 0 }
  else K

theorem processFreeProcess_eq (K : Kernel σ) (process : Nat) :
    processFreeProcess K process =
      (processFreeProcess.task (processFreeProcess.stack (processFreeProgramData
        (processTerminateAllocations (K.follow process) process) process) process) process).kfree
          process := by
  obtain ⟨K₁, hK₁⟩ : ∃ K₁, processFreeProgramData
      (processTerminateAllocations (K.follow process) process) process = K₁ := ⟨_, rfl⟩
  unfold processFreeProcess
  dsimp only
  rw [hK₁]
  rfl

/-- The records from `i` on are given back. -/
theorem scope_terminateAllocations_loop (n : Nat) : ∀ (i : Nat) {K : Kernel σ}
    {obj : Role → Option (Nat × Nat)}, i + n = maxProgramAllocations → Scope owned rest K₀ K obj →
    Holdings K process obj dir f table → (∀ j < i, obj (.allocation j) = none) →
    ∃ obj', Scope owned rest K₀ (processTerminateAllocations.loop process n i K) obj' ∧
      Holdings (processTerminateAllocations.loop process n i K) process obj' dir f table ∧
      (∀ j, obj' (.allocation j) = none) ∧
      Frees K (processTerminateAllocations.loop process n i K) := by
  induction n with
  | zero =>
    intro i K obj hi h ho hbefore
    refine ⟨obj, h, ho, fun j => ?_, .refl K⟩
    by_cases hj : j < maxProgramAllocations
    · exact hbefore j (by omega)
    · exact (ho.noOther j).2 (not_lt.1 hj)
  | succ n ih =>
    intro i K obj hi h ho hbefore
    have hlt : i < maxProgramAllocations := by omega
    have hnext : ∀ {c : Option (Nat × Nat)}, obj (.allocation i) = c → c = none →
        ∀ j < i + 1, obj (.allocation j) = none := fun hc hn j hj => by
      by_cases hji : j = i
      · rw [hji, hc, hn]
      · exact hbefore j (by omega)
    unfold processTerminateAllocations.loop
    dsimp only
    by_cases hptr : ((K.processAt process).allocations i).ptr = 0
    · rw [if_neg (not_not_intro hptr)]
      refine ih (i + 1) (by omega) h ho (hnext rfl ?_)
      have hr := ho.records i hlt
      obtain ⟨c, hc⟩ : ∃ c, obj (.allocation i) = c := ⟨_, rfl⟩
      rw [hc] at hr ⊢
      cases hr with
      | empty _ => rfl
      | blocks b _ hb => exact absurd (hb.symm.trans hptr) (blockAddr_ne_zero b)
    · obtain ⟨b, hb⟩ := ho.blocks hlt hptr
      rw [if_pos hptr, (ho.record hb).2.2.1]
      obtain ⟨h', ho', hreleased, hquiet⟩ := h.processFree ho hb
      have hfrees : Frees K (processFree K process (blockAddr b)) := by
        refine ⟨?_, ?_, ?_, hquiet⟩
        · rw [hreleased.state]
        · rw [hreleased.state]
        · rw [hreleased.state]
      obtain ⟨obj', h'', ho'', hnone, hfrees'⟩ := ih (i + 1) (by omega) h' ho' fun j hj => by
        by_cases hji : j = i
        · rw [hji, Function.update_self]
        · rw [Function.update_of_ne (by simp [hji])]
          exact hbefore j (by omega)
      exact ⟨obj', h'', ho'', hnone, hfrees.trans hfrees'⟩

/-- The program is given back. -/
theorem Scope.freeProgramData (h : Scope owned rest K₀ K obj) (hp : ProgramAt K obj process) :
    Scope owned rest K₀ (processFreeProgramData K process)
        (Function.update (Function.update obj .image none) .elfFile none) ∧
      processFreeProgramData K process = { K with kmem := (processFreeProgramData K process).kmem } ∧
      Frees K (processFreeProgramData K process) := by
  cases hp with
  | elf be ne bi ni hft hptr helf himage hi =>
    have hbe := (h.pos helf).2
    have hbi := (h.pos hi).2
    have himage' : (K.elfFileAt (blockAddr be)).elfMemory = blockAddr bi := himage
    have heq : processFreeProgramData K process = (K.kfree (blockAddr bi)).kfree (blockAddr be) := by
      unfold processFreeProgramData processFreeElfData elfClose
      rw [hft, hptr]
      dsimp only
      rw [if_pos (blockAddr_ne_zero be), if_neg (blockAddr_ne_zero be),
        Kernel.follow_blockAddr hbe, himage']
    have h₁ := h.kfree hi
    have h₂ := h₁.kfree (i := .elfFile) (b := be) (n := ne) (by
      rw [Function.update_of_ne (by decide), helf])
    rw [heq]
    exact ⟨h₂, rfl, (frees_kfree hbi K).trans (frees_kfree hbe _)⟩
  | binary bi ni hft hptr _ helf hi =>
    have hbi := (h.pos hi).2
    have heq : processFreeProgramData K process = K.kfree (blockAddr bi) := by
      unfold processFreeProgramData processFreeBinaryData
      rw [hft, hptr]
      dsimp only
      rw [if_pos (blockAddr_ne_zero bi)]
    have hobj : Function.update (Function.update obj .image none) .elfFile none =
        Function.update obj .image none := by
      refine Function.update_eq_self_iff.2 ?_
      rw [Function.update_of_ne (by decide), helf]
    rw [heq, hobj]
    exact ⟨h.kfree hi, rfl, frees_kfree hbi K⟩

theorem elfClose_mem (K : Kernel σ) (file : Nat) : (elfClose K file).mem = K.mem := by
  unfold elfClose
  split
  · rfl
  · exact (kfree_mem _ _).trans ((kfree_mem _ _).trans (follow_mem _ _))

theorem processFreeProgramData_mem (K : Kernel σ) (process : Nat) :
    (processFreeProgramData K process).mem = K.mem := by
  unfold processFreeProgramData processFreeElfData processFreeBinaryData
  split
  · split
    · exact kfree_mem _ _
    · rfl
  · split
    · exact elfClose_mem K _
    · rfl

/-- The stack is given back. -/
theorem Scope.freeStack (h : Scope owned rest K₀ K obj) {bp np b n : Nat}
    (hprocess : process = blockAddr bp) (hbp : obj .process = some (bp, np))
    (hbs : obj .stack = some (b, n)) (hstack : (K.processAt process).stack = blockAddr b) :
    Scope owned rest K₀ (processFreeProcess.stack K process) (Function.update obj .stack none) ∧
      processFreeProcess.stack K process = (K.kfree (blockAddr b)).setProcess process
        { K.processAt process with stack := 0 } ∧
      Frees K (processFreeProcess.stack K process) := by
  have heq : processFreeProcess.stack K process = (K.kfree (blockAddr b)).setProcess process
      { K.processAt process with stack := 0 } := by
    unfold processFreeProcess.stack
    rw [hstack, if_pos (blockAddr_ne_zero b)]
  have h₁ := h.kfree hbs
  have hbp' : Function.update obj .stack none .process = some (bp, np) := by
    rw [Function.update_of_ne (by decide), hbp]
  rw [heq]
  refine ⟨?_, rfl, (frees_kfree (h.pos hbs).2 K).trans (frees_setProcess _ _ _)⟩
  rw [hprocess]
  exact h₁.setProcess hbp' _

/-! ## The task -/

/-- A removal from the list of tasks changes links only. -/
theorem taskListRemove_field {α : Type} (g : Task → α) (hnext : ∀ v a, g { v with next := a } = g v)
    (q : TaskQueue) (t a : Nat) : g ((taskListRemove q t).task a) = g (q.task a) := by
  rw [taskListRemove_eq]
  dsimp only
  split
  · unfold TaskQueue.setNext
    rw [TaskQueue.set_task]
    split
    · rename_i he
      rw [hnext, he]
    · rfl
  · rfl

theorem Tasked.congr (h : Tasked K process obj dir f table) {obj' : Role → Option (Nat × Nat)}
    (hmem : K'.mem = K.mem) (hqueue : K'.queue = K.queue)
    (htask : (K'.processAt process).task = (K.processAt process).task)
    (hobj : ∀ r, r ≠ .elfFile → r ≠ .image → r ≠ .stack → obj' r = obj r) :
    Tasked K' process obj' dir f table := by
  have hchunk : (K'.queue.task (K'.processAt process).task).pageDirectory =
      (K.queue.task (K.processAt process).task).pageDirectory := by
    rw [hqueue, htask]
  refine ⟨⟨?_, ?_⟩, ?_, ?_, ?_, ?_, fun i hi => ?_⟩
  · rw [hmem]
    exact h.pageDir
  · rw [hmem, hchunk]
    exact h.chunk
  · rw [hobj _ (by decide) (by decide) (by decide), htask]
    exact h.task
  · rw [hchunk]
    exact h.window
  · rw [hchunk, hobj _ (by decide) (by decide) (by decide)]
    exact h.chunkAt
  · rw [hobj _ (by decide) (by decide) (by decide)]
    exact h.directory
  · rw [hobj _ (by simp) (by simp) (by simp)]
    exact h.tables i hi

/-- The roles of a page directory, in the order of their release. -/
def pagingRoles : List Role := (List.range 1024).map .table ++ [.directory, .chunk]

theorem mem_pagingRoles {r : Role} :
    r ∈ pagingRoles ↔ (∃ i < 1024, r = .table i) ∨ r = .directory ∨ r = .chunk := by
  unfold pagingRoles
  simp [eq_comm]

theorem pagingRoles_nodup : pagingRoles.Nodup := by
  unfold pagingRoles
  rw [List.nodup_append]
  refine ⟨List.nodup_range.map fun i j he => ?_, by decide, ?_⟩
  · injection he
  · intro a ha b hb he
    obtain ⟨i, -, rfl⟩ := List.mem_map.1 ha
    subst he
    simp at hb

/-- The block of a part of a page directory. -/
def pagingBlock (chunk dir : Nat) (table : Nat → Nat) : Role → Nat
  | .table i => blockAt (table i)
  | .directory => blockAt dir
  | .chunk => blockAt chunk
  | _ => 0

theorem pagingRoles_blocks (chunk dir : Nat) (table : Nat → Nat) :
    pagingRoles.map (pagingBlock chunk dir table) = directoryBlocks chunk dir table := by
  unfold pagingRoles directoryBlocks
  rw [List.map_append, List.map_map]
  rfl

/-- The task is given back, with its page directory. -/
theorem Scope.freeTask (h : Scope owned rest K₀ K obj) (ht : Tasked K process obj dir f table)
    {bp np : Nat} (hprocess : process = blockAddr bp) (hbp : obj .process = some (bp, np)) :
    Scope owned rest K₀ (processFreeProcess.task K process)
        (fun r => if r = .task ∨ r ∈ pagingRoles then none else obj r) ∧
      Frees K (processFreeProcess.task K process) := by
  obtain ⟨t, n, htask, hptr⟩ := ht.task
  have htlt := (h.pos htask).2
  obtain ⟨chunk, hchunk⟩ : ∃ chunk, (K.queue.task (blockAddr t)).pageDirectory = chunk := ⟨_, rfl⟩
  have hchunk' : (K.queue.task (K.processAt process).task).pageDirectory = chunk := by
    rw [hptr, hchunk]
  have hc := ht.chunk
  have hw := ht.window
  have hat := ht.chunkAt
  rw [hchunk'] at hc hw hat
  -- the directory
  have hfree : pagingFree4gb K.kmem chunk = (pagingRoles.map (pagingBlock chunk dir table)).foldl
      (fun k b => Pandora.kfree k (blockAddr b)) K.kmem := by
    rw [pagingRoles_blocks]
    exact pagingFree4gb_eq hw ht.pageDir hc
  have hblocks : ∀ r ∈ pagingRoles, ∃ m, obj r = some (pagingBlock chunk dir table r, m) := by
    intro r hr
    rcases mem_pagingRoles.1 hr with ⟨i, hi, rfl⟩ | rfl | rfl
    · exact ⟨1, ht.tables i hi⟩
    · exact ⟨1, ht.directory⟩
    · exact ⟨1, hat⟩
  obtain ⟨h₁, hquiet⟩ := Scope.kfreeAll (pagingBlock chunk dir table) pagingRoles h pagingRoles_nodup
    hblocks
  rw [← hfree] at h₁ hquiet
  obtain ⟨K₁, hK₁⟩ : ∃ K₁ : Kernel σ, { K with kmem := pagingFree4gb K.kmem chunk } = K₁ := ⟨_, rfl⟩
  rw [hK₁] at h₁
  -- the list, the task, and the process
  have h₂ : Scope owned rest K₀ (K₁.taskListRemove (blockAddr t))
      (fun r => if r ∈ pagingRoles then none else obj r) :=
    h₁.update rfl rfl fun b _ => ⟨.refl _ b, rfl, rfl,
      taskListRemove_field Task.pageDirectory (fun _ _ => rfl) _ _ _⟩
  have hnot : Role.task ∉ pagingRoles := by simp [mem_pagingRoles]
  have h₃ := h₂.kfree (i := .task) (b := t) (n := n) (by rw [if_neg hnot, htask])
  have heq : taskFree K (blockAddr t) = (K₁.taskListRemove (blockAddr t)).kfree (blockAddr t) := by
    unfold taskFree
    dsimp only
    rw [Kernel.follow_blockAddr htlt, hchunk, hK₁]
  have hfamily : Function.update (fun r => if r ∈ pagingRoles then none else obj r) .task none =
      fun r => if r = .task ∨ r ∈ pagingRoles then none else obj r := by
    funext r
    by_cases hr : r = .task
    · rw [hr, Function.update_self, if_pos (.inl rfl)]
    · simp only [Function.update_of_ne hr, hr, false_or]
  have hbp' : (fun r => if r = .task ∨ r ∈ pagingRoles then none else obj r) .process =
      some (bp, np) := by
    dsimp only
    rw [if_neg (by simp [mem_pagingRoles]), hbp]
  rw [hfamily, ← heq] at h₃
  have hfrees : Frees K (taskFree K (blockAddr t)) := by
    have h₀ : Frees K K₁ := by
      rw [← hK₁]
      exact ⟨rfl, rfl, rfl, hquiet⟩
    rw [heq]
    exact h₀.trans ((⟨rfl, rfl, rfl, .refl _⟩ : Frees K₁ (K₁.taskListRemove (blockAddr t))).trans
      (frees_kfree htlt _))
  unfold processFreeProcess.task
  rw [hptr, if_pos (blockAddr_ne_zero t)]
  refine ⟨?_, hfrees.trans (frees_setProcess _ _ _)⟩
  rw [hprocess]
  exact h₃.setProcess hbp' _

/-! ## The whole release -/

/-- **`process_free_process` gives back what the process holds**, and nothing else. -/
theorem Scope.freeProcess (h : Scope owned rest K₀ K obj) (ho : Holdings K process obj dir f table) :
    Scope owned rest K₀ (processFreeProcess K process) (fun _ : Role => none) ∧
      Frees K (processFreeProcess K process) := by
  obtain ⟨bp, np, hbp, hprocess⟩ := ho.block
  have hbplt := (h.pos hbp).2
  have hfollow : K.follow process = K := by
    rw [hprocess]
    exact Kernel.follow_blockAddr hbplt K
  rw [processFreeProcess_eq, hfollow]
  -- the records
  obtain ⟨K₁, hK₁⟩ : ∃ K₁, processTerminateAllocations K process = K₁ := ⟨_, rfl⟩
  obtain ⟨obj₁, h₁, ho₁, hnone₁, hfrees₁⟩ := scope_terminateAllocations_loop maxProgramAllocations 0
    (Nat.zero_add _) h ho fun j hj => absurd hj (Nat.not_lt_zero j)
  have hloop : processTerminateAllocations.loop process maxProgramAllocations 0 K = K₁ := hK₁
  rw [hloop] at h₁ ho₁ hfrees₁
  rw [hK₁]
  obtain ⟨bp₁, np₁, hbp₁, hprocess₁⟩ := ho₁.block
  -- the program
  obtain ⟨h₂, hstate₂, hfrees₂⟩ := h₁.freeProgramData ho₁.program
  have hmem₂ := processFreeProgramData_mem K₁ process
  obtain ⟨K₂, hK₂⟩ : ∃ K₂, processFreeProgramData K₁ process = K₂ := ⟨_, rfl⟩
  rw [hK₂] at h₂ hstate₂ hfrees₂ hmem₂ ⊢
  have hproc₂ : K₂.processAt = K₁.processAt := by rw [hstate₂]
  have hqueue₂ : K₂.queue = K₁.queue := by rw [hstate₂]
  -- the stack
  obtain ⟨bs, ns, hbs, hstack, -⟩ := ho₁.stack
  obtain ⟨h₃, hstate₃, hfrees₃⟩ := h₂.freeStack (b := bs) (n := ns) hprocess₁
    (by rw [Function.update_of_ne (by decide), Function.update_of_ne (by decide), hbp₁])
    (by rw [Function.update_of_ne (by decide), Function.update_of_ne (by decide), hbs])
    (by rw [hproc₂, hstack])
  obtain ⟨K₃, hK₃⟩ : ∃ K₃, processFreeProcess.stack K₂ process = K₃ := ⟨_, rfl⟩
  rw [hK₃] at h₃ hstate₃ hfrees₃ ⊢
  have hmem₃ : K₃.mem = K₁.mem := by
    rw [hstate₃, ← hmem₂]
    exact follow_mem _ _
  have hqueue₃ : K₃.queue = K₁.queue := by
    rw [hstate₃, ← hqueue₂]
    rfl
  have htask₃ : (K₃.processAt process).task = (K₁.processAt process).task := by
    have hat₃ : K₃.processAt process = { K₂.processAt process with stack := 0 } := by
      rw [hstate₃]
      exact Function.update_self _ _ _
    rw [hat₃, hproc₂]
  obtain ⟨obj₃, hobj₃⟩ : ∃ obj₃, Function.update (Function.update (Function.update obj₁ .image none)
      .elfFile none) .stack none = obj₃ := ⟨_, rfl⟩
  rw [hobj₃] at h₃
  have hkeep : ∀ r, r ≠ .elfFile → r ≠ .image → r ≠ .stack → obj₃ r = obj₁ r := fun r h1 h2 h3 => by
    rw [← hobj₃, Function.update_of_ne h3, Function.update_of_ne h1, Function.update_of_ne h2]
  -- the task
  have ht₃ := ho₁.toTasked.congr hmem₃ hqueue₃ htask₃ hkeep
  obtain ⟨h₄, hfrees₄⟩ := h₃.freeTask ht₃ hprocess₁
    ((hkeep _ (by decide) (by decide) (by decide)).trans hbp₁)
  have hbp₄ : (fun r => if r = .task ∨ r ∈ pagingRoles then none else obj₃ r) .process =
      some (bp₁, np₁) := by
    dsimp only
    rw [if_neg (by simp [mem_pagingRoles]), hkeep _ (by decide) (by decide) (by decide), hbp₁]
  -- the process
  have h₅ := h₄.kfree hbp₄
  rw [← hprocess₁] at h₅
  refine ⟨?_, hfrees₁.trans (hfrees₂.trans (hfrees₃.trans (hfrees₄.trans ?_)))⟩
  · have hobj : Function.update (fun r => if r = .task ∨ r ∈ pagingRoles then none else obj₃ r)
        .process none = fun _ => none := by
      funext r
      cases r with
      | process => exact Function.update_self _ _ _
      | table i =>
        rw [Function.update_of_ne (by simp)]
        by_cases hi : i < 1024
        · exact if_pos (.inr (mem_pagingRoles.2 (.inl ⟨i, hi, rfl⟩)))
        · rw [hkeep _ (by simp) (by simp) (by simp), (ho₁.noOther i).1 (by omega), ite_self]
      | allocation i =>
        rw [Function.update_of_ne (by simp), hkeep _ (by simp) (by simp) (by simp), hnone₁ i, ite_self]
      | _ => simp [mem_pagingRoles, ← hobj₃]
    rw [← hobj]
    exact h₅
  · rw [hprocess₁]
    exact frees_kfree (h₁.pos hbp₁).2 _

/-! ## Without a task -/

/-- A process as a load that fails leaves it: with a program or without one, and nothing else. -/
structure Unfinished (K : Kernel σ) (process : Nat) (obj : Role → Option (Nat × Nat)) : Prop where
  block : ∃ b n, obj .process = some (b, n) ∧ process = blockAddr b
  program : ((K.processAt process).ptr = 0 ∧ obj .elfFile = none ∧ obj .image = none) ∨
    ProgramAt K obj process
  stack : (K.processAt process).stack = 0
  task : (K.processAt process).task = 0
  fresh : ∀ i, (K.processAt process).allocations i = {}
  others : ∀ r, r ≠ .process → r ≠ .elfFile → r ≠ .image → obj r = none

theorem terminateAllocations_loop_empty (h : ∀ i, ((K.processAt process).allocations i).ptr = 0)
    (n : Nat) : ∀ i, processTerminateAllocations.loop process n i K = K := by
  induction n with
  | zero => exact fun _ => rfl
  | succ n ih =>
    intro i
    unfold processTerminateAllocations.loop
    dsimp only
    rw [if_neg (not_not_intro (h i))]
    exact ih (i + 1)

/-- A process that a load gives up is given back. -/
theorem Scope.freeUnfinished (h : Scope owned rest K₀ K obj) (hu : Unfinished K process obj) :
    Scope owned rest K₀ (processFreeProcess K process) (fun _ : Role => none) ∧
      Frees K (processFreeProcess K process) ∧ (processFreeProcess K process).queue = K.queue := by
  obtain ⟨bp, np, hbp, hprocess⟩ := hu.block
  have hbplt := (h.pos hbp).2
  have hfollow : K.follow process = K := by
    rw [hprocess]
    exact Kernel.follow_blockAddr hbplt K
  have hloop : processTerminateAllocations K process = K :=
    terminateAllocations_loop_empty (fun i => by rw [hu.fresh i]) _ 0
  -- the program
  obtain ⟨obj₁, hobj₁⟩ : ∃ obj₁, Function.update (Function.update obj .image none) .elfFile none =
    obj₁ := ⟨_, rfl⟩
  have hnone : ∀ r, r ≠ .process → obj₁ r = none := fun r hr => by
    rw [← hobj₁]
    by_cases h1 : r = .elfFile
    · rw [h1, Function.update_self]
    by_cases h2 : r = .image
    · rw [h2, Function.update_of_ne (by decide), Function.update_self]
    rw [Function.update_of_ne h1, Function.update_of_ne h2, hu.others r hr h1 h2]
  have hbp₁ : obj₁ .process = some (bp, np) := by
    rw [← hobj₁, Function.update_of_ne (by decide), Function.update_of_ne (by decide), hbp]
  obtain ⟨K₁, hK₁⟩ : ∃ K₁, processFreeProgramData K process = K₁ := ⟨_, rfl⟩
  obtain ⟨h₁, hstate₁, hfrees₁⟩ : Scope owned rest K₀ K₁ obj₁ ∧ K₁ = { K with kmem := K₁.kmem } ∧
      Frees K K₁ := by
    rw [← hK₁, ← hobj₁]
    rcases hu.program with ⟨hptr, helf, himage⟩ | hp
    · have hsame : processFreeProgramData K process = K := by
        unfold processFreeProgramData processFreeElfData processFreeBinaryData
        rw [hptr]
        split <;> rfl
      have hobj : Function.update (Function.update obj .image none) .elfFile none = obj := by
        have himage' : Function.update obj .image none = obj :=
          Function.update_eq_self_iff.2 himage.symm
        rw [himage']
        exact Function.update_eq_self_iff.2 helf.symm
      rw [hsame, hobj]
      exact ⟨h, rfl, .refl K⟩
    · exact h.freeProgramData hp
  have hproc₁ : K₁.processAt = K.processAt := by rw [hstate₁]
  have hstack : processFreeProcess.stack K₁ process = K₁ := by
    unfold processFreeProcess.stack
    rw [hproc₁, hu.stack]
    rfl
  have htask : processFreeProcess.task K₁ process = K₁ := by
    unfold processFreeProcess.task
    rw [hproc₁, hu.task]
    rfl
  have heq : processFreeProcess K process = K₁.kfree process := by
    rw [processFreeProcess_eq, hfollow, hloop, hK₁, hstack, htask]
  have h₂ := h₁.kfree hbp₁
  have hobj₂ : Function.update obj₁ .process none = fun _ => none := by
    funext r
    by_cases hr : r = .process
    · rw [hr, Function.update_self]
    · rw [Function.update_of_ne hr, hnone r hr]
  rw [hobj₂, ← hprocess] at h₂
  rw [heq]
  refine ⟨h₂, hfrees₁.trans ?_, ?_⟩
  · rw [hprocess]
    exact frees_kfree hbplt K₁
  · rw [hstate₁]
    rfl

end

end Pandora
