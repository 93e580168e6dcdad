import Pandora.Process.Isr80h
import Pandora.Task.Rotation

/-!
# The end of a task (`isr80h/process.c`, `idt/idt.c`, `task/task.c`)

The clock interrupt switches to the task behind the current one. A process that ends frees its task,
which hands `current_task` on to the task behind it (`task_free_keeps_rotation`), and calls `task_next`
like the clock interrupt, which goes on from there. So the task that is resumed is the second one behind
the task that ended (`Running.exits`); it is the one behind it only where no other is left
(`exit_resumes_successor_iff`).

`KeepsTasks` is what the release of the memory of a process keeps: the list and the task of every
process.
-/

namespace Pandora

open Linked

variable {σ : Type}

/-! ## Scheduling -/

/-- `none` is the panic without a task. The task that is returned to is the current one then. -/
def taskNext (K : Kernel σ) : Option (Kernel σ) :=
  let nextTask := taskGetNext K.queue
  if nextTask = 0 then none else some (taskSwitch K nextTask)

def isr80hCommand9Exit (K : Kernel σ) : Option (Kernel σ) :=
  let process := (K.queue.task K.queue.current).process
  match processTerminate K process with
  | none => none
  | some K => taskNext K

def idtHandleException (K : Kernel σ) : Option (Kernel σ) :=
  match processTerminate K (K.queue.task K.queue.current).process with
  | none => none
  | some K => taskNext K

def idtClock (K : Kernel σ) : Option (Kernel σ) := taskNext K

/-! ## The rotation -/

/-- `task_switch(task_get_next())` -/
def Kernel.turn (K : Kernel σ) : Kernel σ := taskSwitch K (taskGetNext K.queue)

theorem Kernel.turn_iterate_queue (K : Kernel σ) (k : Nat) :
    (Kernel.turn^[k] K).queue = TaskQueue.turn^[k] K.queue := by
  induction k with
  | zero => rfl
  | succ k ih =>
    rw [Function.iterate_succ_apply', Function.iterate_succ_apply', ← ih]
    rfl

/-- The tasks but `t` go on in their order, from the one behind `t` on where `t` was current. -/
structure KeepsRotation (K K' : Kernel σ) (live : List Nat) (t : Nat) (ht : t ∈ live) : Prop where
  chain : Walk (fun a => (K'.queue.task a).next) 0 K'.queue.head (live.erase t)
  ends : (live.erase t).getLast? = some K'.queue.tail
  current : K'.queue.current = if t = K.queue.current then live.next t ht else K.queue.current
  visits : ∃ i, ∃ hi : i < (live.erase t).length, K'.queue.current = (live.erase t)[i] ∧
    ∀ k, (List.range (live.length - 1)).map (fun j => (Kernel.turn^[k + j + 1] K').queue.current) =
      (live.erase t).rotate (i + k + 1)

/-- **Removing one task keeps the rotation** of the others, whatever task it is. -/
theorem task_free_keeps_rotation {K : Kernel σ} {live : List Nat} {t : Nat}
    (h : TaskRun.Ok ⟨K.queue, live⟩) (hlen : 2 ≤ live.length) (ht : t ∈ live) :
    KeepsRotation K (taskFree K t) live t ht where
  chain := h.remove_chain ht
  ends := h.remove_tail ht hlen
  current := h.remove_current ht hlen
  visits := by
    obtain ⟨i, hi, hc, hvisits⟩ := h.remove_visits ht hlen
    refine ⟨i, hi, hc, fun k => ?_⟩
    simp only [Kernel.turn_iterate_queue]
    exact hvisits k

/-! ## What the release of memory keeps -/

/-- The list of the tasks and the task of every process. -/
structure KeepsTasks (K K' : Kernel σ) : Prop where
  queue : K'.queue = K.queue
  task : ∀ p, (K'.processAt p).task = (K.processAt p).task

section

variable {K K' K'' : Kernel σ} {process : Nat}

theorem KeepsTasks.refl (K : Kernel σ) : KeepsTasks K K := ⟨rfl, fun _ => rfl⟩

theorem KeepsTasks.trans (h : KeepsTasks K K') (h' : KeepsTasks K' K'') : KeepsTasks K K'' :=
  ⟨h'.queue.trans h.queue, fun p => (h'.task p).trans (h.task p)⟩

theorem KeepsTasks.setProcess (h : KeepsTasks K K') {v : Process}
    (hv : v.task = (K'.processAt process).task) : KeepsTasks K (K'.setProcess process v) where
  queue := h.queue
  task := fun p => by
    rw [← h.task p]
    unfold Kernel.setProcess
    dsimp only
    by_cases hp : p = process
    · rw [hp, Function.update_self, hv]
    · rw [Function.update_of_ne hp]

theorem keepsTasks_processFree (K : Kernel σ) (process ptr : Nat) :
    KeepsTasks K (processFree K process ptr) := by
  unfold processFree
  split
  · exact .refl K
  · dsimp only
    split
    · exact ⟨rfl, fun _ => rfl⟩
    · rename_i index _ _
      obtain ⟨K₁, hK₁⟩ : ∃ K₁, (K.mapTo process ((K.processAt process).allocations index).ptr
          ((K.processAt process).allocations index).ptr
          (pagingAlignAddress (Word.add ((K.processAt process).allocations index).ptr
            ((K.processAt process).allocations index).size)) 0).2 = K₁ := ⟨_, rfl⟩
      have h₁ : KeepsTasks K K₁ := by
        rw [← hK₁]
        exact ⟨rfl, fun _ => rfl⟩
      have h₂ : KeepsTasks K (K₁.setProcess process
          (processAllocationUnjoin (K₁.processAt process) ptr)) := h₁.setProcess rfl
      rw [hK₁]
      exact ⟨h₂.queue, h₂.task⟩

theorem keepsTasks_terminateAllocations (process : Nat) : ∀ (n i : Nat) (K : Kernel σ),
    KeepsTasks K (processTerminateAllocations.loop process n i K)
  | 0, _, K => .refl K
  | n + 1, i, K => by
    unfold processTerminateAllocations.loop
    dsimp only
    refine .trans ?_ (keepsTasks_terminateAllocations process n (i + 1) _)
    split
    · exact keepsTasks_processFree K process _
    · exact .refl K

theorem keepsTasks_freeProgramData (K : Kernel σ) (process : Nat) :
    KeepsTasks K (processFreeProgramData K process) := by
  unfold processFreeProgramData processFreeBinaryData processFreeElfData elfClose
  split
  · split
    · exact ⟨rfl, fun _ => rfl⟩
    · exact .refl K
  · split
    · exact ⟨rfl, fun _ => rfl⟩
    · exact .refl K

/-- Of the list, freeing a process removes its task. -/
theorem processFreeProcess_queue (K : Kernel σ) (process : Nat)
    (htask : (K.processAt process).task ≠ 0) :
    (processFreeProcess K process).queue = taskListRemove K.queue (K.processAt process).task := by
  obtain ⟨K₁, hK₁⟩ : ∃ K₁, processFreeProgramData
      (processTerminateAllocations (K.follow process) process) process = K₁ := ⟨_, rfl⟩
  have h₁ : KeepsTasks K K₁ := by
    have hfollow : KeepsTasks K (K.follow process) := ⟨rfl, fun _ => rfl⟩
    have hterminate : KeepsTasks (K.follow process)
        (processTerminateAllocations (K.follow process) process) :=
      keepsTasks_terminateAllocations process _ 0 (K.follow process)
    rw [← hK₁]
    exact hfollow.trans (hterminate.trans (keepsTasks_freeProgramData _ process))
  obtain ⟨K₂, hK₂⟩ : ∃ K₂, (if (K₁.processAt process).stack ≠ 0 then
      (K₁.kfree (K₁.processAt process).stack).setProcess process
        { K₁.processAt process with stack := 0 } else K₁) = K₂ := ⟨_, rfl⟩
  have h₂ : KeepsTasks K K₂ := by
    rw [← hK₂]
    split
    · have hkfree : KeepsTasks K₁ (K₁.kfree (K₁.processAt process).stack) := ⟨rfl, fun _ => rfl⟩
      exact h₁.trans (hkfree.setProcess rfl)
    · exact h₁
  unfold processFreeProcess
  dsimp only
  rw [hK₁, hK₂, h₂.task, if_pos htask]
  exact congrArg (fun q => taskListRemove q (K.processAt process).task) h₂.queue

end

/-! ## Running processes -/

/-- The task at `t` is the task of a process in the table. -/
structure RunningTask (K : Kernel σ) (t : Nat) : Prop where
  process : (K.queue.task t).process ≠ 0
  task : (K.processAt (K.queue.task t).process).task = t
  slot : (K.processAt (K.queue.task t).process).id < maxProcesses
  listed : K.processes (K.processAt (K.queue.task t).process).id = (K.queue.task t).process

/-- The list is linked both ways, and its tasks are those of running processes. -/
structure Running (K : Kernel σ) (live : List Nat) : Prop where
  ok : TaskRun.Ok ⟨K.queue, live⟩
  current : K.queue.current ∈ live
  running : ∀ t ∈ live, RunningTask K t

/-- In a ring of different nodes, only the one node of a ring of one comes behind itself. -/
theorem next_eq_self_iff {l : List Nat} (hl : l.Nodup) {a : Nat} (ha : a ∈ l) :
    l.next a ha = a ↔ l.length = 1 := by
  obtain ⟨i, hi, rfl⟩ := List.getElem_of_mem ha
  rw [List.next_getElem l hl i hi, hl.getElem_inj_iff]
  rcases Nat.lt_or_ge (i + 1) l.length with hlt | hge
  · rw [Nat.mod_eq_of_lt hlt]
    omega
  · rw [show i + 1 = l.length by omega, Nat.mod_self]
    omega

section

variable {K : Kernel σ} {live : List Nat}

/-- Where another process is in the table there is one to switch to. -/
theorem Running.unlink (h : Running K live) (hlen : 2 ≤ live.length) :
    ∃ c, processUnlink K (K.queue.task K.queue.current).process =
      some { K with
        processes := Function.update K.processes
          (K.processAt (K.queue.task K.queue.current).process).id 0
        currentProcess := c } := by
  -- another task, whose process is in another slot
  obtain ⟨u, hu, hne⟩ : ∃ u ∈ live, u ≠ K.queue.current := by
    refine ⟨live.next _ h.current, List.next_mem _ _ _, fun he => ?_⟩
    have hone : live.length = 1 := (next_eq_self_iff h.ok.forward.nodup h.current).1 he
    omega
  have hrun := h.running _ h.current
  have hother := h.running u hu
  have hslot : (K.processAt (K.queue.task u).process).id ≠
      (K.processAt (K.queue.task K.queue.current).process).id := fun he => by
    have hsame : (K.queue.task u).process = (K.queue.task K.queue.current).process := by
      rw [← hother.listed, he, hrun.listed]
    exact hne (by rw [← hother.task, hsame, hrun.task])
  unfold processUnlink
  dsimp only
  split
  · unfold processSwitchToAny
    cases hfind : (List.range maxProcesses).find? fun i =>
        Function.update K.processes (K.processAt (K.queue.task K.queue.current).process).id 0 i ≠ 0
        with
    | some i => exact ⟨_, rfl⟩
    | none =>
      have hno := List.find?_eq_none.1 hfind _ (List.mem_range.2 hother.slot)
      rw [Function.update_of_ne hslot, hother.listed] at hno
      exact absurd (decide_eq_true hother.process) hno
  · exact ⟨K.currentProcess, rfl⟩

/-- The process of the current task is ended, and its task is out of the list. -/
theorem Running.terminate (h : Running K live) (hlen : 2 ≤ live.length) :
    ∃ K', processTerminate K (K.queue.task K.queue.current).process = some K' ∧
      K'.queue = taskListRemove K.queue K.queue.current := by
  obtain ⟨c, hunlink⟩ := h.unlink hlen
  have hrun := h.running _ h.current
  have hne : K.queue.current ≠ 0 := h.ok.forward.ne_null h.current
  unfold processTerminate
  rw [hunlink]
  refine ⟨_, rfl, ?_⟩
  rw [processFreeProcess_queue]
  · dsimp only
    rw [hrun.task]
  · dsimp only
    rw [hrun.task]
    exact hne

theorem taskNext_of_walk (hw : Walk (fun a => (K.queue.task a).next) 0 K.queue.head live)
    (hc : K.queue.current ∈ live) :
    taskNext K = some (taskSwitch K (live.next K.queue.current hc)) := by
  have hnext : taskGetNext K.queue = live.next K.queue.current hc :=
    (taskGetNext_eq_following K.queue).trans (hw.following_eq_next hc)
  unfold taskNext
  dsimp only
  rw [hnext, if_neg (hw.ne_null (List.next_mem _ _ _))]

theorem Running.clock (h : Running K live) :
    idtClock K = some (taskSwitch K (live.next K.queue.current h.current)) :=
  taskNext_of_walk h.ok.forward h.current

/-- The task that is resumed is the second one behind the task that ended. -/
theorem Running.exits (h : Running K live) (hlen : 2 ≤ live.length) :
    ∃ K' hc, isr80hCommand9Exit K = some K' ∧ idtHandleException K = some K' ∧
      K'.queue.current =
        (live.erase K.queue.current).next (live.next K.queue.current h.current) hc := by
  obtain ⟨K₁, hterm, hqueue⟩ := h.terminate hlen
  have hcur : K₁.queue.current = live.next K.queue.current h.current := by
    rw [hqueue, h.ok.remove_current h.current hlen]
    exact if_pos rfl
  have hmem : K₁.queue.current ∈ live.erase K.queue.current := by
    rw [hqueue]
    exact h.ok.remove_current_mem h.current hlen
  have hwalk : Walk (fun a => (K₁.queue.task a).next) 0 K₁.queue.head
      (live.erase K.queue.current) := by
    rw [hqueue]
    exact h.ok.remove_chain h.current
  have hnext := taskNext_of_walk hwalk hmem
  have hsame : idtHandleException K = isr80hCommand9Exit K := rfl
  refine ⟨taskSwitch K₁ ((live.erase K.queue.current).next K₁.queue.current hmem), hcur ▸ hmem, ?_,
    ?_, ?_⟩
  · unfold isr80hCommand9Exit
    dsimp only
    rw [hterm]
    exact hnext
  · rw [hsame]
    unfold isr80hCommand9Exit
    dsimp only
    rw [hterm]
    exact hnext
  · unfold taskSwitch
    dsimp only
    simp only [hcur]

/-- **An exit resumes the next task**, the one that the clock interrupt would have switched to,
exactly where the ended task and one other are all there are. -/
theorem exit_resumes_successor_iff (h : Running K live) (hlen : 2 ≤ live.length) :
    ∃ K' C, isr80hCommand9Exit K = some K' ∧ idtHandleException K = some K' ∧ idtClock K = some C ∧
      C.queue.current = live.next K.queue.current h.current ∧
      (K'.queue.current = C.queue.current ↔ live.length = 2) := by
  obtain ⟨K', hc, hexit, hexception, hcur⟩ := h.exits hlen
  refine ⟨K', _, hexit, hexception, h.clock, rfl, ?_⟩
  have hnodup := h.ok.forward.nodup.erase K.queue.current
  have hlength : (live.erase K.queue.current).length = live.length - 1 :=
    List.length_erase_of_mem h.current
  have htwo : (live.erase K.queue.current).length = 1 ↔ live.length = 2 := by omega
  rw [hcur, ← htwo]
  exact next_eq_self_iff hnodup hc

end

/-! ## Three tasks -/

/-- Three processes with a task each; the first is current. -/
def threeTasks : Kernel Unit where
  kmem := bootKmem
  queue := {
    task := fun t =>
      if t = 0x1000000 then { process := 0x1010000, next := 0x1001000 }
      else if t = 0x1001000 then { process := 0x1011000, next := 0x1002000, prev := 0x1000000 }
      else if t = 0x1002000 then { process := 0x1012000, prev := 0x1001000 }
      else {}
    head := 0x1000000
    tail := 0x1002000
    current := 0x1000000 }
  processAt := fun p =>
    if p = 0x1010000 then { id := 0, task := 0x1000000 }
    else if p = 0x1011000 then { id := 1, task := 0x1001000 }
    else if p = 0x1012000 then { id := 2, task := 0x1002000 }
    else {}
  elfFileAt := fun _ => {}
  processes := fun i =>
    if i = 0 then 0x1010000 else if i = 1 then 0x1011000 else if i = 2 then 0x1012000 else 0
  currentProcess := 0x1010000
  files := ()

theorem threeTasks_ok : TaskRun.Ok ⟨threeTasks.queue, [0x1000000, 0x1001000, 0x1002000]⟩ := by
  refine .of ?_ ?_ fun _ => ?_ <;> simp [threeTasks]

theorem threeTasks_running : Running threeTasks [0x1000000, 0x1001000, 0x1002000] where
  ok := threeTasks_ok
  current := List.mem_cons_self
  running := fun t ht => by
    simp only [List.mem_cons, List.not_mem_nil, or_false] at ht
    rcases ht with rfl | rfl | rfl <;> constructor <;> decide

theorem task_free_keeps_rotation_middle :
    KeepsRotation threeTasks (taskFree threeTasks 0x1001000) [0x1000000, 0x1001000, 0x1002000]
      0x1001000 (by decide) :=
  task_free_keeps_rotation threeTasks_ok (by decide) (by decide)

theorem exit_resumes_successor_iff_three :
    ∃ K' C, isr80hCommand9Exit threeTasks = some K' ∧ idtHandleException threeTasks = some K' ∧
      idtClock threeTasks = some C ∧
      C.queue.current = [0x1000000, 0x1001000, 0x1002000].next 0x1000000 (by decide) ∧
      (K'.queue.current = C.queue.current ↔ [0x1000000, 0x1001000, 0x1002000].length = 2) :=
  exit_resumes_successor_iff threeTasks_running (by decide)

/-- The first task exits: the clock interrupt would have gone on with the second, and the third is
resumed. -/
theorem exit_skips_second : ∃ K' C, isr80hCommand9Exit threeTasks = some K' ∧
    idtHandleException threeTasks = some K' ∧ idtClock threeTasks = some C ∧
    C.queue.current = 0x1001000 ∧ K'.queue.current = 0x1002000 := by
  obtain ⟨K', hc, hexit, hexception, hcur⟩ := threeTasks_running.exits (by decide)
  exact ⟨K', _, hexit, hexception, threeTasks_running.clock, rfl, hcur⟩

end Pandora
