import Pandora.Process.Exit
import Pandora.Process.Release

/-!
# What comes of a load

A load that ends without a fault leaves a live process in the slot that was the first free one, or it
leaves nothing: no block is in scope then, and the table of processes and the list of tasks are as
before (`Scope.processLoad_outcome`). In both cases the blocks that were taken before are as they were.
-/

namespace Pandora

open ByteMem

section

variable {σ : Type} {F : FileLayer σ} {owned : σ → Nat → Prop} {rest : Nat → Prop}
  {K₀ K K' : Kernel σ} {obj : Role → Option (Nat × Nat)} {filename : List UInt8}
  {process dir f : Nat} {table : Nat → Nat}

/-- The list of the tasks `live`, in blocks of the `rest`. -/
structure TasksIn (rest : Nat → Prop) (q : TaskQueue) (live : List Nat) : Prop where
  forward : Linked.Walk (fun a => (q.task a).next) 0 q.head live
  tail : live.getLast? = some q.tail
  current : q.current ∈ live
  rest : ∀ t ∈ live, ∃ b, t = blockAddr b ∧ rest b

/-- What a load leaves that fails. -/
structure GivenUp (owned : σ → Nat → Prop) (rest : Nat → Prop) (K₀ K K' : Kernel σ) : Prop where
  processes : K'.processes = K.processes
  current : K'.currentProcess = K.currentProcess
  tasks : ∀ live, TasksIn rest K.queue live → SameTasks K.queue K'.queue live
  noTasks : K.queue.head = 0 → K.queue.tail = 0 → K.queue.current = 0 →
    SameTasks K.queue K'.queue []
  scope : Scope owned rest K₀ K' fun _ : Role => none

/-- The list of the tasks was not touched. -/
theorem GivenUp.of_queue (hprocesses : K'.processes = K.processes)
    (hcurrent : K'.currentProcess = K.currentProcess) (hqueue : K'.queue = K.queue)
    (hscope : Scope owned rest K₀ K' fun _ : Role => none) : GivenUp owned rest K₀ K K' where
  processes := hprocesses
  current := hcurrent
  tasks := fun live _ => hqueue ▸ .refl _ live
  noTasks := fun _ _ _ => hqueue ▸ .refl _ []
  scope := hscope

/-- What a load leaves that succeeds. -/
structure Succeeded (owned : σ → Nat → Prop) (rest : Nat → Prop) (K₀ K K' : Kernel σ)
    (process slot : Nat) (obj : Role → Option (Nat × Nat)) (dir : Nat) (table : Nat → Nat) :
    Prop where
  entered : Entered K K' process slot
  live : Live K' process obj dir pagingUserWriteable table
  linked : ∃ v : Task, FreshTask v process ∧
    K'.queue = taskLink (K.queue.set (K'.processAt process).task v) (K'.processAt process).task
  scope : Scope owned rest K₀ K' obj

/-- The last calls of a load. -/
theorem Scope.task_outcome (h : Scope owned rest K₀ K obj) {bp np out slot : Nat}
    (hprocess : process = blockAddr bp) (hbp : obj .process = some (bp, np)) (hnone : Untasked obj)
    (hprogram : ProgramAt K obj process)
    (hstack : ∃ b n, obj .stack = some (b, n) ∧ (K.processAt process).stack = blockAddr b ∧
      userProgramStackSize ≤ 4096 * n)
    (hrecords : ∀ i, (K.processAt process).allocations i = {} ∧ obj (.allocation i) = none)
    (hs : (Pandora.taskNew (K.setProcess process { K.processAt process with id := slot })
      process).2.kmem.Sound) :
    ∃ res p K', processLoadForSlot.task K out process slot = (res, p, K') ∧ K'.kmem.Sound ∧
      ((0 ≤ res ∧ p = process ∧ ∃ obj' dir, ∃ table : Nat → Nat,
          Succeeded owned rest K₀ K K' process slot obj' dir table) ∨
        (res < 0 ∧ GivenUp owned rest K₀ K K')) := by
  obtain ⟨res, K', obj', dir, table, heq, hassembled, hlive, h', hs'⟩ :=
    h.taskAssembled hprocess hbp hnone hprogram hstack hrecords hs
  rw [heq]
  by_cases hneg : res < 0
  · obtain ⟨hfreed, hfrees⟩ := h'.freeProcess (hlive.holdings hassembled.fresh)
    obtain ⟨t, n, ht, htask⟩ := hlive.task
    obtain ⟨v, hv, hlinked⟩ := hassembled.linked
    rw [htask] at hlinked
    have hqueue : (processFreeProcess K' process).queue =
        taskListRemove (taskLink (K.queue.set (blockAddr t) v) (blockAddr t)) (blockAddr t) := by
      rw [processFreeProcess_queue _ _ (by rw [htask]; exact blockAddr_ne_zero t), htask, hlinked]
    rw [if_pos hneg]
    refine ⟨res, 0, _, rfl, hs'.quiet hfrees.quiet,
      .inr ⟨hneg, ?_, ?_, fun live htasks => ?_, fun hhead htail hcurrent => ?_, hfreed⟩⟩
    · rw [hfrees.processes, hassembled.processes]
    · rw [hfrees.current, hassembled.current]
    · -- the task that was put at the end of the list is taken out again
      have hfresh : blockAddr t ∉ live := fun hmem => by
        obtain ⟨b, he, hb⟩ := htasks.rest _ hmem
        exact h'.ne_of_rest ht hb (blockAddr_inj.1 he).symm
      rw [hqueue]
      exact taskListRemove_taskLink htasks.forward htasks.tail htasks.current hfresh hv.next
    · rw [hqueue]
      exact taskListRemove_taskLink_nil hhead htail hcurrent hv.next hv.prev
  · rw [if_neg hneg]
    refine ⟨res, process, _, rfl, hs', .inl ⟨not_lt.1 hneg, rfl, obj', dir, table,
      ⟨?_, hassembled.current, hassembled.id, hassembled.fresh⟩, hlive.listed _, hassembled.linked,
      h'.update rfl rfl fun b _ => ⟨.refl _ b, ⟨rfl, rfl, rfl⟩⟩⟩⟩
    rw [← hassembled.processes]

/-! ## The program and the stack -/

/-- A load, once the process is allocated, has a program in `K₁` and then a stack. -/
structure TaskStage (F : FileLayer σ) (K : Kernel σ) (filename : List UInt8) (process stack : Nat)
    (K₁ K₂ : Kernel σ) : Prop where
  loaded : processLoadData F (K.setProcess process {}) filename process = (allOk, K₁)
  allocated : K₁.kzalloc userProgramStackSize = (stack, K₂)
  stack_ne : stack ≠ 0

/-- It goes on to the task. -/
theorem TaskStage.task_rises {stack : Nat} {K₁ K₂ L : Kernel σ}
    (h : TaskStage F K filename process stack K₁ K₂)
    (hL : K₂.setProcess process { K₂.processAt process with stack := stack } = L) (out slot : Nat) :
    (Pandora.taskNew (L.setProcess process { L.processAt process with id := slot })
      process).2.kmem.Rises (processLoadForSlot.process F K filename out process slot).2.2.kmem := by
  rw [processLoadForSlot_process_eq out slot h.loaded h.allocated,
    if_neg (show ¬ allOk < 0 by decide), if_neg h.stack_ne, hL]
  exact processLoadForSlot_task_new_rises L out process slot

/-- A load from `K` on has come to `L`, where the process has its program, and besides at most a stack. -/
structure Loading (owned : σ → Nat → Prop) (rest : Nat → Prop) (K₀ K L : Kernel σ) (process : Nat)
    (obj : Role → Option (Nat × Nat)) : Prop where
  scope : Scope owned rest K₀ L obj
  block : ∃ b n, obj .process = some (b, n) ∧ process = blockAddr b
  program : ProgramAt L obj process
  task : (L.processAt process).task = 0
  records : ∀ i, (L.processAt process).allocations i = {}
  others : ∀ r, r ≠ .process → r ≠ .elfFile → r ≠ .image → r ≠ .stack → obj r = none
  processes : L.processes = K.processes
  current : L.currentProcess = K.currentProcess
  queue : L.queue = K.queue

theorem Loading.untasked {L : Kernel σ} (h : Loading owned rest K₀ K L process obj) : Untasked obj where
  task := h.others _ (by decide) (by decide) (by decide) (by decide)
  chunk := h.others _ (by decide) (by decide) (by decide) (by decide)
  directory := h.others _ (by decide) (by decide) (by decide) (by decide)
  table := fun _ => h.others _ (by simp) (by simp) (by simp) (by simp)

/-- The process gets a stack, or is noted to have none. -/
theorem Loading.setStack {L L' : Kernel σ} {obj' : Role → Option (Nat × Nat)}
    (h : Loading owned rest K₀ K L process obj) (hL' : L' = { L with kmem := L'.kmem })
    (h' : Scope owned rest K₀ L' obj') (hkeep : ∀ r, r ≠ .stack → obj' r = obj r) (stack : Nat) :
    Loading owned rest K₀ K
      (L'.setProcess process { L'.processAt process with stack := stack }) process obj' := by
  obtain ⟨b, n, hb, hprocess⟩ := h.block
  have hproc : L'.processAt = L.processAt := by rw [hL']
  obtain ⟨L'', hL''⟩ : ∃ L'', L'.setProcess process { L'.processAt process with stack := stack } = L'' :=
    ⟨_, rfl⟩
  have hat : L''.processAt process = { L.processAt process with stack := stack } := by
    rw [← hL'', ← hproc]
    exact Function.update_self _ _ _
  have himage : L''.imageOf = L.imageOf := by
    funext e
    rw [← hL'', hL']
    rfl
  rw [hL'']
  refine ⟨?_, ⟨b, n, (hkeep _ (by decide)).trans hb, hprocess⟩, ?_, by rw [hat, h.task],
    fun i => by rw [hat, h.records i], fun r h0 h1 h2 h3 => (hkeep r h3).trans (h.others r h0 h1 h2 h3),
    ?_, ?_, ?_⟩
  · rw [← hL'', hprocess]
    exact h'.setProcess ((hkeep _ (by decide)).trans hb) _
  · refine h.program.congr (by rw [hat]) (by rw [hat]) (by rw [hat]) (by rw [himage]) ?_
    rintro r (rfl | rfl)
    · exact hkeep _ (by decide)
    · exact hkeep _ (by decide)
  · rw [← h.processes, ← hL'', hL']
    rfl
  · rw [← h.current, ← hL'', hL']
    rfl
  · rw [← h.queue, ← hL'', hL']
    rfl

/-- Without a stack it is left unfinished. -/
theorem Loading.unfinished {L : Kernel σ} (h : Loading owned rest K₀ K L process obj)
    (hstack : (L.processAt process).stack = 0) (hnone : obj .stack = none) : Unfinished L process obj where
  block := h.block
  program := .inr h.program
  stack := hstack
  task := h.task
  fresh := h.records
  others := fun r h0 h1 h2 => by
    by_cases hr : r = .stack
    · rw [hr, hnone]
    · exact h.others r h0 h1 h2 hr

/-- The program of a new process: it is there, or the file layer alone has worked. -/
theorem Scope.newData (hF : F.Sound owned) (hR : F.Regular) (h : Scope owned rest K₀ K obj)
    {bp np : Nat} (hprocess : process = blockAddr bp) (hbp : obj .process = some (bp, np))
    (hnone : ∀ r, r ≠ .process → obj r = none)
    (hs : (Pandora.processLoadData F (K.setProcess process {}) filename process).2.kmem.Sound) :
    ∃ res K₁, Pandora.processLoadData F (K.setProcess process {}) filename process = (res, K₁) ∧
      ((∃ obj', res = allOk ∧ obj' .stack = none ∧ Loading owned rest K₀ K K₁ process obj') ∨
        (res < 0 ∧ (K.setProcess process {}).FileOnly K₁ ∧ Scope owned rest K₀ K₁ obj)) := by
  obtain ⟨K₁, hK₁⟩ : ∃ K₁, K.setProcess process {} = K₁ := ⟨_, rfl⟩
  rw [hK₁] at hs ⊢
  have h₁ : Scope owned rest K₀ K₁ obj := by
    rw [← hK₁, hprocess]
    exact h.setProcess hbp {}
  have hat₁ : K₁.processAt process = {} := by
    rw [← hK₁]
    exact Function.update_self _ _ _
  have hold₁ : K₁.processes = K.processes ∧ K₁.currentProcess = K.currentProcess ∧
      K₁.queue = K.queue := by
    rw [← hK₁]
    exact ⟨rfl, rfl, rfl⟩
  obtain ⟨res, K₂, hload, hcases⟩ := h₁.processLoadData hF hR hbp hprocess
    (hnone .elfFile (by decide)) (hnone .image (by decide)) hs
  refine ⟨res, K₂, hload, hcases.imp_left ?_⟩
  rintro ⟨obj', rfl, hloaded, h₂⟩
  obtain ⟨L, v, honly, hstate, hv⟩ := hloaded.state
  rw [hat₁] at hv
  have hold₂ : K₂.processes = K.processes ∧ K₂.currentProcess = K.currentProcess ∧
      K₂.queue = K.queue := by
    rw [hstate, honly]
    exact hold₁
  have hat₂ : K₂.processAt process = v := by
    rw [hstate]
    exact Function.update_self _ _ _
  have hobj' : ∀ r, r ≠ .process → r ≠ .elfFile → r ≠ .image → obj' r = none := fun r h0 h1 h2 =>
    (hloaded.others r h1 h2).trans (hnone r h0)
  exact ⟨obj', rfl, hobj' _ (by decide) (by decide) (by decide), h₂,
    ⟨bp, np, (hloaded.others _ (by decide) (by decide)).trans hbp, hprocess⟩, hloaded.program,
    by rw [hat₂, hv], fun i => by rw [hat₂, hv], fun r h0 h1 h2 _ => hobj' r h0 h1 h2, hold₂.1,
    hold₂.2.1, hold₂.2.2⟩

/-- The stack of a process with a program: there is none, or it joins the scope. -/
theorem Loading.kzalloc {L : Kernel σ} {stack : Nat} {L' : Kernel σ}
    (h : Loading owned rest K₀ K L process obj) (hnone : obj .stack = none)
    (hz : L.kzalloc userProgramStackSize = (stack, L')) (hs : L'.kmem.Sound) :
    (stack = 0 ∧ Loading owned rest K₀ K
        (L'.setProcess process { L'.processAt process with stack := stack }) process obj) ∨
      ∃ b n, stack = blockAddr b ∧ userProgramStackSize ≤ 4096 * n ∧ Loading owned rest K₀ K
        (L'.setProcess process { L'.processAt process with stack := stack }) process
        (Function.update obj .stack (some (b, n))) := by
  have hs' : (L.kzalloc userProgramStackSize).2.kmem.Sound := by
    rw [hz]
    exact hs
  rcases h.scope.kzalloc (i := .stack) hnone (show 1 ≤ userProgramStackSize by decide) (by decide) hs'
    with ⟨he, h'⟩ | ⟨b, n, -, -, hle, he, h'⟩
  · rw [hz, Prod.mk.injEq] at he
    obtain ⟨rfl, hL'⟩ := he
    rw [← hL'] at h'
    exact .inl ⟨rfl, h.setStack (by rw [hL']) h' (fun _ _ => rfl) 0⟩
  · rw [hz, Prod.mk.injEq] at he
    obtain ⟨rfl, hL'⟩ := he
    rw [← hL'] at h'
    exact .inr ⟨b, n, rfl, hle, h.setStack (by rw [hL']) h'
      (fun r hr => Function.update_of_ne hr _ _) _⟩

/-- A load that has come to the task. -/
theorem Scope.atTask (hF : F.Sound owned) (hR : F.Regular) (h : Scope owned rest K₀ K obj)
    {bp np stack : Nat} (hprocess : process = blockAddr bp) (hbp : obj .process = some (bp, np))
    (hnone : ∀ r, r ≠ .process → obj r = none) {K₁ K₂ : Kernel σ}
    (hstage : TaskStage F K filename process stack K₁ K₂) (hs : K₂.kmem.Sound) :
    ∃ obj', Loading owned rest K₀ K
      (K₂.setProcess process { K₂.processAt process with stack := stack }) process obj' := by
  obtain ⟨hload, hz, hne⟩ := hstage
  have hs₁ : K₁.kmem.Sound := by
    have hrises := K₁.kzalloc_rises userProgramStackSize
    rw [hz] at hrises
    exact hrises.sound hs
  obtain ⟨res, K₁', he, hcases⟩ := h.newData hF hR hprocess hbp hnone
    (show (Pandora.processLoadData F (K.setProcess process {}) filename process).2.kmem.Sound by
      rw [hload]; exact hs₁)
  rw [hload, Prod.mk.injEq] at he
  obtain ⟨rfl, rfl⟩ := he
  rcases hcases with ⟨obj', -, hstack, hloading⟩ | ⟨hneg, -⟩
  · rcases hloading.kzalloc hstack hz hs with ⟨h0, -⟩ | ⟨b, n, -, -, hloading'⟩
    · exact absurd h0 hne
    · exact ⟨_, hloading'⟩
  · exact absurd hneg (by decide)

/-- The calls of a load from the program on. -/
theorem Scope.process_outcome (hF : F.Sound owned) (hR : F.Regular) (h : Scope owned rest K₀ K obj)
    {bp np out slot : Nat} (hprocess : process = blockAddr bp) (hbp : obj .process = some (bp, np))
    (hnone : ∀ r, r ≠ .process → obj r = none)
    (hsd : (Pandora.processLoadData F (K.setProcess process {}) filename process).2.kmem.Sound)
    (hshort : (processLoadForSlot.process F K filename out process slot).2.2.kmem.short = false)
    (hst : ∀ {stack K₁ K₂ L}, TaskStage F K filename process stack K₁ K₂ → K₂.kmem.Sound →
      K₂.setProcess process { K₂.processAt process with stack := stack } = L →
      (Pandora.taskNew (L.setProcess process { L.processAt process with id := slot })
        process).2.kmem.Sound) :
    ∃ res p K', processLoadForSlot.process F K filename out process slot = (res, p, K') ∧
      K'.kmem.Sound ∧
      ((0 ≤ res ∧ p = process ∧ ∃ obj' dir, ∃ table : Nat → Nat,
          Succeeded owned rest K₀ K K' process slot obj' dir table) ∨
        (res < 0 ∧ GivenUp owned rest K₀ K K')) := by
  obtain ⟨res, K₁, hdata, hcases⟩ := h.newData hF hR hprocess hbp hnone hsd
  have hs₁ : K₁.kmem.Sound := by
    rw [hdata] at hsd
    exact hsd
  obtain ⟨⟨stack, K₂⟩, hz⟩ : ∃ r, K₁.kzalloc userProgramStackSize = r := ⟨_, rfl⟩
  rw [processLoadForSlot_process_eq out slot hdata hz] at hshort ⊢
  rcases hcases with ⟨obj₁, rfl, hstack, hloading⟩ | ⟨hneg, honly, h₁⟩
  case inr =>
    -- no program: the process alone is freed
    have hat₁ : K₁.processAt process = {} := by
      rw [honly]
      exact Function.update_self _ _ _
    have hunfinished : Unfinished K₁ process obj :=
      ⟨⟨bp, np, hbp, hprocess⟩,
        .inl ⟨by rw [hat₁], hnone .elfFile (by decide), hnone .image (by decide)⟩, by rw [hat₁],
        by rw [hat₁], fun i => by rw [hat₁], fun r hr _ _ => hnone r hr⟩
    obtain ⟨hfreed, hfrees, hqueue⟩ := h₁.freeUnfinished hunfinished
    rw [if_pos hneg]
    refine ⟨res, 0, _, rfl, hs₁.quiet hfrees.quiet, .inr ⟨hneg, .of_queue ?_ ?_ ?_ hfreed⟩⟩
    · rw [hfrees.processes, honly]
      rfl
    · rw [hfrees.current, honly]
      rfl
    · rw [hqueue, honly]
      rfl
  rw [if_neg (show ¬ allOk < 0 by decide)] at hshort ⊢
  obtain ⟨L, hL⟩ : ∃ L, K₂.setProcess process { K₂.processAt process with stack := stack } = L :=
    ⟨_, rfl⟩
  rw [hL] at hshort ⊢
  -- the stack
  have hs₂ : K₂.kmem.Sound := by
    have hfault := kzalloc_fault K₁.kmem userProgramStackSize
    have hk : (Pandora.kzalloc K₁.kmem userProgramStackSize).2 = K₂.kmem :=
      congrArg (fun r => r.2.kmem) hz
    have hkmem : K₂.kmem = L.kmem := by rw [← hL]; rfl
    rw [hk] at hfault
    refine ⟨hfault.trans hs₁.fault, ?_⟩
    rw [hkmem]
    rw [← Bool.not_eq_true] at hshort ⊢
    by_cases h0 : stack = 0
    · rw [if_pos h0] at hshort
      exact hshort ∘ (processFreeProcess_rises L process).short
    · rw [if_neg h0] at hshort
      exact hshort ∘ (processLoadForSlot_task_rises L _ _ _).short
  have hsL : L.kmem.Sound := hL ▸ hs₂
  have hatL : (L.processAt process).stack = stack := by
    rw [← hL]
    unfold Kernel.setProcess
    dsimp only
    rw [Function.update_self]
  rcases hloading.kzalloc hstack hz hs₂ with ⟨h0, hL'⟩ | ⟨b, n, hb, hle, hL'⟩
  · -- no stack: the program and the process are freed
    rw [hL] at hL'
    obtain ⟨hfreed, hfrees, hqueue⟩ :=
      hL'.scope.freeUnfinished (hL'.unfinished (hatL.trans h0) hstack)
    rw [if_pos h0]
    exact ⟨-enomem, 0, _, rfl, hsL.quiet hfrees.quiet, .inr ⟨by decide,
      .of_queue (hfrees.processes.trans hL'.processes) (hfrees.current.trans hL'.current)
        (hqueue.trans hL'.queue) hfreed⟩⟩
  · -- the task
    rw [hL] at hL'
    have hne : stack ≠ 0 := hb ▸ blockAddr_ne_zero b
    obtain ⟨bp', np', hbp', hprocess'⟩ := hL'.block
    rw [if_neg hne]
    obtain ⟨res, p, K', he, hs', hcases⟩ := hL'.scope.task_outcome hprocess' hbp' hL'.untasked
      hL'.program ⟨b, n, Function.update_self _ _ _, hatL.trans hb, hle⟩
      (fun i => ⟨hL'.records i, hL'.others _ (by simp) (by simp) (by simp) (by simp)⟩)
      (hst ⟨hdata, hz, hne⟩ hs₂ hL)
    refine ⟨res, p, K', he, hs', ?_⟩
    rcases hcases with ⟨hres, hp, obj', dir, table, hsucceeded⟩ | ⟨hneg, hgiven⟩
    · refine .inl ⟨hres, hp, obj', dir, table, ⟨?_, ?_, hsucceeded.entered.id,
        hsucceeded.entered.fresh⟩, hsucceeded.live, ?_, hsucceeded.scope⟩
      · rw [hsucceeded.entered.processes, hL'.processes]
      · rw [hsucceeded.entered.current, hL'.current]
      · rw [← hL'.queue]
        exact hsucceeded.linked
    · refine .inr ⟨hneg, ?_, ?_, ?_, ?_, hgiven.scope⟩
      · rw [hgiven.processes, hL'.processes]
      · rw [hgiven.current, hL'.current]
      · rw [← hL'.queue]
        exact hgiven.tasks
      · rw [← hL'.queue]
        exact hgiven.noTasks

/-! ## The whole load -/

/-- **A load leaves a live process, or nothing.** -/
theorem Scope.processLoad_outcome (hF : F.Sound owned) (hR : F.Regular)
    (h : Scope owned rest K₀ K fun _ : Role => none) {out stale : Nat}
    (hs : (processLoad F K filename out stale).2.2.kmem.Sound) :
    ∃ res process K', processLoad F K filename out stale = (res, process, K') ∧
      ((0 ≤ res ∧ ∃ slot : Nat, processGetFreeSlot K = slot ∧ slot < maxProcesses ∧
          K.processes slot = 0 ∧ ∃ obj dir, ∃ table : Nat → Nat,
            Succeeded owned rest K₀ K K' process slot obj dir table) ∨
        (res < 0 ∧ GivenUp owned rest K₀ K K')) := by
  rcases processLoad_cases F K filename out stale with
    ⟨-, he⟩ | ⟨slot, hslot, hzero, hget, -, process, K₁, hz, he⟩
  · exact ⟨_, _, _, he, .inr ⟨by decide, .of_queue rfl rfl rfl h⟩⟩
  rw [he] at hs ⊢
  have hs₁ : K₁.kmem.Sound := by
    by_cases hp : process = 0
    · rw [if_pos hp] at hs
      exact hs
    · rw [if_neg hp] at hs
      exact (processLoadForSlot_process_rises hF.rises K₁ filename out process slot).sound hs
  rcases h.kzalloc (i := .process) rfl (show 1 ≤ sizeofProcess by decide) (by decide)
    (by rw [hz]; exact hs₁) with ⟨he₁, h₁⟩ | ⟨bp, np, hbp, -, -, he₁, h₁⟩
  · rw [hz, Prod.mk.injEq] at he₁
    obtain ⟨rfl, hK₁⟩ := he₁
    rw [← hK₁] at h₁
    rw [if_pos rfl]
    exact ⟨_, _, _, rfl, .inr ⟨by decide,
      .of_queue (by rw [hK₁]) (by rw [hK₁]) (by rw [hK₁]) h₁⟩⟩
  · rw [hz, Prod.mk.injEq] at he₁
    obtain ⟨rfl, hK₁⟩ := he₁
    rw [← hK₁] at h₁
    rw [if_neg (blockAddr_ne_zero bp)] at hs ⊢
    obtain ⟨res, p, K', he₂, -, hcases⟩ := h₁.process_outcome hF hR rfl (Function.update_self _ _ _)
      (fun r hr => Function.update_of_ne hr _ _)
      ((processLoadForSlot_process_data_rises _ filename out _ slot).sound hs) hs.short
      fun hstage _ hL => (hstage.task_rises hL out slot).sound hs
    refine ⟨res, p, K', he₂, ?_⟩
    rcases hcases with ⟨hres, rfl, obj', dir, table, hsucceeded⟩ | ⟨hneg, hgiven⟩
    · refine .inl ⟨hres, slot, hget, hslot, hzero, obj', dir, table, ⟨?_, ?_,
        hsucceeded.entered.id, hsucceeded.entered.fresh⟩, hsucceeded.live, ?_, hsucceeded.scope⟩
      · rw [hsucceeded.entered.processes, hK₁]
      · rw [hsucceeded.entered.current, hK₁]
      · have hqueue : K₁.queue = K.queue := by rw [hK₁]
        rw [← hqueue]
        exact hsucceeded.linked
    · have hqueue : K₁.queue = K.queue := by rw [hK₁]
      refine .inr ⟨hneg, ?_, ?_, ?_, ?_, hgiven.scope⟩
      · rw [hgiven.processes, hK₁]
      · rw [hgiven.current, hK₁]
      · rw [← hqueue]
        exact hgiven.tasks
      · rw [← hqueue]
        exact hgiven.noTasks

/-- **A load that succeeds leaves a live process**, in the slot that was the first free one. -/
theorem Scope.processLoad (hF : F.Sound owned) (hR : F.Regular)
    (h : Scope owned rest K₀ K fun _ : Role => none) {out stale : Nat}
    (hres : 0 ≤ (processLoad F K filename out stale).1)
    (hs : (processLoad F K filename out stale).2.2.kmem.Sound) :
    ∃ res process K', ∃ slot : Nat, ∃ obj dir, ∃ table : Nat → Nat,
      Pandora.processLoad F K filename out stale = (res, process, K') ∧ 0 ≤ res ∧
        processGetFreeSlot K = slot ∧ slot < maxProcesses ∧ K.processes slot = 0 ∧
        Entered K K' process slot ∧ Live K' process obj dir pagingUserWriteable table ∧
        Scope owned rest K₀ K' obj := by
  obtain ⟨res, process, K', he, hcases⟩ := h.processLoad_outcome hF hR hs
  rw [he] at hres
  rcases hcases with ⟨-, slot, hget, hslot, hzero, obj, dir, table, hsucceeded⟩ | ⟨hneg, -⟩
  · exact ⟨res, process, K', slot, obj, dir, table, he, hres, hget, hslot, hzero,
      hsucceeded.entered, hsucceeded.live, hsucceeded.scope⟩
  · exact absurd hres (not_le.2 hneg)

end

end Pandora
