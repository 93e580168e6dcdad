import Pandora.Idt.Calls

/-!
# Programs and traps

In a run of the machine (`MachineOp`) the user programs go on, store bytes and are interrupted, by the clock,
by keys, by exceptions and by their own system calls. `Machine.Ok` is the invariant: the processes are
scheduled, and the processor is with one of them (`Machine.Runs`): its task is current, its directory is loaded
and it is in user mode with interrupts on.
-/

namespace Pandora

open ByteMem

section

variable {σ : Type}

/-- The program in slot `s` runs (module doc). -/
structure Machine.Runs (M : Machine σ) (s : Nat) : Prop where
  live : M.kernel.LiveSlot s
  task : M.kernel.taskOf s = M.kernel.queue.current
  directory : M.directory = M.kernel.directory (M.kernel.processes s)
  user : M.context.User
  interrupts : M.context.flags &&& 0x200 = 0x200

structure Machine.Ok (owned : σ → Nat → Prop) (rest : Nat → Prop) (K₀ : Kernel σ) (M : Machine σ)
    (obj : Nat → Role → Option (Nat × Nat)) (dir : Nat → Nat) (table : Nat → Nat → Nat)
    (live : List Nat) : Prop where
  scheduled : Scheduled owned rest K₀ M.kernel obj dir table live
  nonempty : live ≠ []
  focus : M.kernel.currentProcess ≠ 0
  runs : ∃ s, M.Runs s
  user : ∀ s, M.kernel.LiveSlot s → ¬ M.Runs s → (M.kernel.saved s).User

/-- What is asked of a step: a program stays in user mode and cannot turn interrupts off, an exception or an
exit finds the list in order, and a system call has what it needs (`Isr80hCommand.Fine`). -/
def MachineOp.Fine (F : FileLayer σ) (T : TrapTables) (M : Machine σ) : MachineOp → Prop
  | run context => context.User ∧ context.flags &&& 0x200 = 0x200
  | store virt _ => virt < 2 ^ 32
  | trap vector errorCode _ L =>
    match T.gates vector with
    | some (.interrupt n) =>
      if T.interruptCallbacks n = some .idtHandleException then
        ∀ K, taskCurrentSaveState M.kernel (M.context.frame errorCode) = some K → K.Unlinkable
      else errorCode = none
    | some .isr80hWrapper =>
      ∀ K c, taskCurrentSaveState M.kernel (M.context.frame none) = some K →
        T.isr80hCommands (Word.toInt M.context.eax).toNat = some c → c.Fine F L K
    | _ => True

/-- What has come of a step from `M` to `M'`, where the program in slot `s` ran: it runs on, or a task was
entered with the registers that were saved for it, and those of `s` are saved. -/
structure Machine.Outcome (M M' : Machine σ) (s : Nat) (obj obj' : Nat → Role → Option (Nat × Nat)) :
    Prop where
  others : ∀ t, M.kernel.LiveSlot t → t ≠ s → obj' t = obj t ∧ Left M.kernel M'.kernel t (obj t)
  ends : M'.Runs s ∨ (M'.context = (M'.kernel.queue.task M'.kernel.queue.current).registers.returned ∧
    (M'.kernel.LiveSlot s → obj' s = obj s ∧ KeptButKeys M.kernel M'.kernel s (obj s) ∧
      M'.kernel.saved s = M.context))

end

section

variable {σ : Type} {F : FileLayer σ} {T : TrapTables} {past : UInt8} {owned : σ → Nat → Prop}
  {rest : Nat → Prop} {K₀ K K₁ : Kernel σ} {M M' : Machine σ}
  {obj obj' : Nat → Role → Option (Nat × Nat)} {dir dir' : Nat → Nat} {table table' : Nat → Nat → Nat}
  {live live' : List Nat} {s t : Nat} {R : Registers}

theorem Registers.returned_user (h : R.User) : R.returned.User := ⟨h.cs, h.ss⟩

theorem Registers.returned_flags (R : Registers) : R.returned.flags &&& 0x200 = 0x200 := by
  have hself : (0x200 : Nat) &&& 0x200 = 0x200 := by decide
  unfold Registers.returned
  refine Nat.eq_of_testBit_eq fun i => ?_
  rw [Nat.testBit_and, Nat.testBit_or]
  cases Nat.testBit 0x200 i
  · simp
  · simp

/-- Only one program runs. -/
theorem Machine.Runs.unique (h : Scheduled owned rest K₀ M.kernel obj dir table live) (hs : M.Runs s)
    (ht : M.Runs t) : s = t :=
  h.taskOf_inj hs.live ht.live (hs.task.trans ht.task.symm)

/-! ## The registers are saved -/

/-- The kernel in which a handler works: the registers of the current task are saved. -/
structure SavedIn (K K₁ : Kernel σ) (s : Nat) (R : Registers) (o : Role → Option (Nat × Nat)) : Prop where
  kept : Kept K K₁ s o
  saved : K₁.saved s = R
  live : ∀ t, K₁.LiveSlot t ↔ K.LiveSlot t
  taskOf : ∀ t, K₁.taskOf t = K.taskOf t
  current : K₁.queue.current = K.queue.current
  currentProcess : K₁.currentProcess = K.currentProcess

theorem SavedIn.refl (K : Kernel σ) (s : Nat) (o : Role → Option (Nat × Nat)) :
    SavedIn K K s (K.saved s) o :=
  ⟨.refl K s o, rfl, fun _ => Iff.rfl, fun _ => rfl, rfl, rfl⟩

theorem Scheduled.saveState (h : Scheduled owned rest K₀ K obj dir table live) (hs : K.LiveSlot s)
    (hat : K.taskOf s = K.queue.current) {frame : InterruptFrame}
    (he : taskCurrentSaveState K frame = some K₁) :
    Serves owned rest K₀ K K₁ s obj obj dir table live live ∧
      SavedIn K K₁ s frame.registers (obj s) := by
  have hK₁ : K.setTask (K.taskOf s) { K.queue.task (K.taskOf s) with registers := frame.registers } = K₁ := by
    unfold taskCurrentSaveState at he
    split at he
    · cases he
    · rw [hat]
      exact Option.some.inj he
  have hserves := h.save hs frame.registers
  have hdir : ∀ a, ((K.queue.set (K.taskOf s)
      { K.queue.task (K.taskOf s) with registers := frame.registers }).task a).pageDirectory =
        (K.queue.task a).pageDirectory := fun a => by
    rw [TaskQueue.set_task]
    split
    · rename_i he
      rw [he]
    · rfl
  rw [hK₁] at hserves
  refine ⟨hserves, ?_⟩
  subst hK₁
  refine ⟨⟨fun r j _ => ⟨rfl, .refl _ j, rfl, rfl, hdir _⟩, rfl⟩, ?_, fun _ => Iff.rfl, fun _ => rfl, rfl,
    rfl⟩
  change ((K.queue.set (K.taskOf s) _).task (K.taskOf s)).registers = frame.registers
  rw [TaskQueue.set_task, if_pos rfl]

/-! ## The end of a handler -/

/-- The program whose task is current runs when the kernel is left. -/
theorem Machine.leave_runs (N : Machine σ) {R : Registers} (hs : K.LiveSlot s)
    (hat : K.taskOf s = K.queue.current) (hR : R.User) (hflags : R.flags &&& 0x200 = 0x200) :
    (N.leave K R).Runs s := by
  refine ⟨hs, hat, ?_, hR, hflags⟩
  unfold Machine.leave Kernel.directory
  dsimp only
  rw [← hat]
  rfl

/-- What is saved for the other processes is in user mode. -/
theorem Machine.Ok.others_user (h : M.Ok owned rest K₀ obj dir table live) (hs : M.Runs s)
    (hserves : Serves owned rest K₀ M.kernel K s obj obj' dir' table' live live') (ht : K.LiveSlot t)
    (hne : t ≠ s) : (K.saved t).User := by
  by_cases hlive : M.kernel.LiveSlot t
  · rw [h.scheduled.left_saved hlive (hserves.others t hlive hne).2]
    exact h.user t hlive fun hr => hne (hr.unique h.scheduled hs)
  · exact hserves.user t ht hlive hne

/-- The kernel is left after a handler that ended well. -/
theorem Machine.Ok.finish (h : M.Ok owned rest K₀ obj dir table live) (hs : M.Runs s)
    (hserves : Serves owned rest K₀ M.kernel K₁ s obj obj dir table live live)
    (hsaved : SavedIn M.kernel K₁ s R (obj s)) {e : SyscallEnd σ}
    (he : e.Good owned rest K₀ K₁ s obj live)
    (hR : ∀ K', e = .entered K' → K'.LiveSlot s → R = M.context) {context : Nat → Registers}
    (hcontext : ∀ value, (context value).User ∧ (context value).flags = M.context.flags) (N : Machine σ) :
    ∃ obj' dir' table' live', (N.finish context e).Ok owned rest K₀ obj' dir' table' live' ∧
      M.Outcome (N.finish context e) s obj obj' := by
  cases he with
  | @returned value K' obj' dir' table' live' serves lives task current =>
    have hall := hserves.trans h.scheduled serves
    obtain ⟨hne, h0⟩ := hall.alive h.nonempty h.focus
    have hat : K'.taskOf s = K'.queue.current := by
      rw [task, hsaved.taskOf, hs.task, current, hsaved.current]
    have hruns : (N.finish context (.returned value K')).Runs s :=
      N.leave_runs lives hat (hcontext value).1 (by rw [(hcontext value).2]; exact hs.interrupts)
    refine ⟨obj', dir', table', live', ⟨hall.scheduled, hne, h0, ⟨s, hruns⟩, fun t ht hno => ?_⟩,
      ⟨hall.others, .inl hruns⟩⟩
    exact h.others_user hs hall ht fun he => hno (he ▸ hruns)
  | @entered K' obj' dir' table' live' serves left =>
    have hall := hserves.trans h.scheduled serves
    obtain ⟨hne, h0⟩ := hall.alive h.nonempty h.focus
    have hs₁ : K₁.LiveSlot s := (hsaved.live s).2 hs.live
    -- where the process has not ended, what it has is as it was, and its registers are saved
    have hkeeps : K'.LiveSlot s → obj' s = obj s ∧ KeptButKeys M.kernel K' s (obj s) ∧
        K'.saved s = M.context := fun hlive => by
      obtain ⟨hobj, hl⟩ := left hlive
      refine ⟨hobj, hsaved.kept.butKeys.trans hl.kept, ?_⟩
      rw [hserves.scheduled.left_saved hs₁ hl, hsaved.saved, hR K' rfl hlive]
    have huser : ∀ t, K'.LiveSlot t → (K'.saved t).User := fun t ht => by
      by_cases hts : t = s
      · subst hts
        rw [(hkeeps ht).2.2]
        exact hs.user
      · exact h.others_user hs hall ht hts
    obtain ⟨t, ht, hat, -⟩ := hall.scheduled.running hne
    have hcur : (K'.queue.task K'.queue.current).registers = K'.saved t := by
      unfold Kernel.saved
      rw [hat]
    have hruns : (N.finish context (.entered K')).Runs t := by
      refine N.leave_runs ht hat ?_ (Registers.returned_flags _)
      rw [hcur]
      exact Registers.returned_user (huser t ht)
    exact ⟨obj', dir', table', live', ⟨hall.scheduled, hne, h0, ⟨t, hruns⟩, fun t' ht' _ => huser t' ht'⟩,
      ⟨hall.others, .inr ⟨rfl, hkeeps⟩⟩⟩

/-! ## Steps -/

theorem Scheduled.callback (h : Scheduled owned rest K₀ K obj dir table live) (hne : live ≠ [])
    (h0 : K.currentProcess ≠ 0) (hs : K.LiveSlot s) (hat : K.taskOf s = K.queue.current)
    {callback : InterruptCallback} (hlink : callback = .idtHandleException → K.Unlinkable)
    {scancode : UInt8} {capslock capslock' : KeyboardCapsLockState} {e : SyscallEnd σ}
    (he : callback.call past scancode capslock K = some (e, capslock')) :
    e.Good owned rest K₀ K s obj live ∧
      (callback = .idtHandleException → ∀ K', e = .entered K' → ¬ K'.LiveSlot s) := by
  cases callback with
  | idtHandleException =>
    obtain ⟨K', hexit, heq⟩ := Option.map_eq_some_iff.1 he
    cases heq
    obtain ⟨hgone, obj', dir', table', live', hserves⟩ := h.exit hne h0 hs hat (hlink rfl) hexit
    refine ⟨.entered hserves fun hlive => absurd hlive hgone, fun _ K'' heq => ?_⟩
    cases heq
    exact hgone
  | idtClock =>
    obtain ⟨K', hclock, heq⟩ := Option.map_eq_some_iff.1 he
    cases heq
    have hnext := fun c => h.next hne c
    obtain ⟨t, ht, hsome, -⟩ := hnext 0
    obtain rfl : taskSwitch K t = K' := Option.some.inj (hsome.symm.trans hclock)
    exact ⟨entered_good hs fun c => h.switch ht c, fun heq => by cases heq⟩
  | pso2KeyboardHandleInterrupt =>
    cases he
    have hpush := fun c => h.push past capslock scancode c
    exact ⟨h.returned hs (fun c => (hpush c).1) (by rw [(hpush 0).2]) _, fun heq => by cases heq⟩

/-- The program in slot `s` stores a byte. -/
theorem Machine.Ok.store (h : M.Ok owned rest K₀ obj dir table live) (hs : M.Runs s) {virt : Nat}
    (hv : virt < 2 ^ 32) (v : UInt8) :
    ∃ obj' dir' table' live', (M.store virt v).Ok owned rest K₀ obj' dir' table' live' ∧
      M.Outcome (M.store virt v) s obj obj' := by
  obtain ⟨K', hK'⟩ : ∃ K', M.kernel.userStore (M.kernel.processes s) virt v = K' := ⟨_, rfl⟩
  have hstore : M.store virt v = { M with kernel := K' } := by
    rw [← hK']
    unfold Machine.store Kernel.userStore Kernel.translate
    rw [← hs.directory]
    dsimp only
    split
    · rfl
    · rfl
  obtain ⟨obj', hstep⟩ := h.scheduled.store hs.live hv v
  have hk : M.kernel.TasksKept K' := by
    rw [← hK']
    unfold Kernel.userStore
    dsimp only
    split
    · exact M.kernel.tasksKept_mem _
    · exact .refl _
  rw [hK'] at hstep
  have hserves := h.scheduled.serve hstep hk
  obtain ⟨hne, h0⟩ := hserves.alive h.nonempty h.focus
  have hprocesses : K'.processes = M.kernel.processes := by rw [hk.state]
  have hlive : K'.LiveSlot s := ⟨hs.live.1, by rw [hprocesses]; exact hs.live.2⟩
  have hruns : Machine.Runs { M with kernel := K' } s := by
    refine ⟨hlive, ?_, ?_, hs.user, hs.interrupts⟩
    · have htask : K'.taskOf s = M.kernel.taskOf s := by
        unfold Kernel.taskOf
        rw [hprocesses]
        exact hk.task _
      dsimp only
      rw [htask, hs.task, hk.state]
    · -- the page directory is none of the data of the process
      have hdir := (hstep.confined.holdings s hlive.1 hlive.2).directory_eq
      rw [hs.directory, hdir, (h.scheduled.holdings s hs.live.1 hs.live.2).directory_eq]
  rw [hstore]
  exact ⟨obj', dir, table, live, ⟨hserves.scheduled, hne, h0, ⟨s, hruns⟩, fun t ht hno =>
    h.others_user hs hserves ht fun he => hno (he ▸ hruns)⟩, ⟨hserves.others, .inl hruns⟩⟩

/-- An interrupt, by the callback that is registered for it. -/
theorem Machine.Ok.interrupt (h : M.Ok owned rest K₀ obj dir table live) (hs : M.Runs s) {n : Nat}
    {errorCode : Option Nat} {scancode : UInt8}
    (hfine : if T.interruptCallbacks n = some .idtHandleException then
      ∀ K, taskCurrentSaveState M.kernel (M.context.frame errorCode) = some K → K.Unlinkable
      else errorCode = none) (he : M.interrupt T past scancode n errorCode = some M') :
    ∃ obj' dir' table' live', M'.Ok owned rest K₀ obj' dir' table' live' ∧ M.Outcome M' s obj obj' := by
  have hself : ∀ c, Serves owned rest K₀ M.kernel M.kernel c obj obj dir table live live :=
    fun c => .refl h.scheduled c
  unfold Machine.interrupt at he
  obtain ⟨⟨e, capslock⟩, hint, rfl⟩ := Option.map_eq_some_iff.1 he
  unfold interruptHandler at hint
  cases hcb : T.interruptCallbacks n with
  | none =>
    rw [hcb] at hint
    cases hint
    exact h.finish hs (hself s) (.refl _ s _) (h.scheduled.returned hs.live hself rfl 0)
      (fun _ heq => by cases heq) (fun _ => ⟨hs.user, rfl⟩) _
  | some callback =>
    rw [hcb] at hint hfine
    obtain ⟨K₁, hsave, hcall⟩ := Option.bind_eq_some_iff.1 hint
    obtain ⟨hserves, hsaved⟩ := h.scheduled.saveState hs.live hs.task hsave
    have hat : K₁.taskOf s = K₁.queue.current := by rw [hsaved.taskOf, hsaved.current, hs.task]
    have h0 : K₁.currentProcess ≠ 0 := by
      rw [hsaved.currentProcess]
      exact h.focus
    obtain ⟨hgood, hgone⟩ := hserves.scheduled.callback h.nonempty h0 ((hsaved.live s).2 hs.live) hat
      (fun heq => by
        rw [heq, if_pos rfl] at hfine
        exact hfine K₁ hsave) hcall
    refine h.finish hs hserves hsaved hgood (fun K' heq hlive => ?_) (fun _ => ⟨hs.user, rfl⟩) _
    -- but for an exception there is no error code, and the registers are saved as they are
    by_cases hex : callback = .idtHandleException
    · exact absurd hlive (hgone hex K' heq)
    · rw [if_neg fun heq => hex (Option.some.inj heq)] at hfine
      rw [hfine]
      rfl

/-- A system call. -/
theorem Machine.Ok.isr80h (hF : F.Sound owned) (hR : F.Regular) (h : M.Ok owned rest K₀ obj dir table live)
    (hs : M.Runs s) {L : Locals}
    (hfine : ∀ K c, taskCurrentSaveState M.kernel (M.context.frame none) = some K →
      T.isr80hCommands (Word.toInt M.context.eax).toNat = some c → c.Fine F L K)
    (he : M.isr80h F T L = some M') :
    ∃ obj' dir' table' live', M'.Ok owned rest K₀ obj' dir' table' live' ∧ M.Outcome M' s obj obj' := by
  unfold Machine.isr80h at he
  obtain ⟨⟨e, t⟩, hint, rfl⟩ := Option.map_eq_some_iff.1 he
  obtain ⟨K₁, hsave, hcall⟩ := Option.bind_eq_some_iff.1 hint
  obtain ⟨hserves, hsaved⟩ := h.scheduled.saveState hs.live hs.task hsave
  have hs₁ : K₁.LiveSlot s := (hsaved.live s).2 hs.live
  have hat : K₁.taskOf s = K₁.queue.current := by rw [hsaved.taskOf, hsaved.current, hs.task]
  have h0 : K₁.currentProcess ≠ 0 := by
    rw [hsaved.currentProcess]
    exact h.focus
  have hgood : e.Good owned rest K₀ K₁ s obj live := by
    rcases isr80hHandleCommand_cases hcall with rfl | ⟨c, hc, hcall⟩
    · exact hserves.scheduled.returned hs₁ (fun c => .refl hserves.scheduled c) rfl 0
    · exact hserves.scheduled.call hF hR h.nonempty h0 hs₁ hat (hfine K₁ c hsave hc) hcall
  have hcontext : ∀ value, ({ M.context with eax := value } : Registers).User ∧
      ({ M.context with eax := value } : Registers).flags = M.context.flags :=
    fun _ => ⟨⟨hs.user.cs, hs.user.ss⟩, rfl⟩
  exact h.finish hs hserves hsaved hgood (fun _ _ _ => rfl) hcontext { M with terminal := t }

/-- **One step of the machine**, whatever program runs. -/
theorem Machine.Ok.step (hF : F.Sound owned) (hR : F.Regular) (h : M.Ok owned rest K₀ obj dir table live)
    (hs : M.Runs s) {op : MachineOp} (hfine : op.Fine F T M) (he : M.step F T past op = some M') :
    ∃ obj' dir' table' live', M'.Ok owned rest K₀ obj' dir' table' live' ∧ M.Outcome M' s obj obj' := by
  cases op with
  | run context =>
    cases he
    have hserves : Serves owned rest K₀ M.kernel M.kernel s obj obj dir table live live :=
      .refl h.scheduled s
    have hruns : Machine.Runs { M with context := context } s :=
      ⟨hs.live, hs.task, hs.directory, hfine.1, hfine.2⟩
    refine ⟨obj, dir, table, live, ⟨h.scheduled, h.nonempty, h.focus, ⟨s, hruns⟩, fun t ht hno => ?_⟩,
      ⟨hserves.others, .inl hruns⟩⟩
    exact h.others_user hs hserves ht fun he => hno (he ▸ hruns)
  | store virt v =>
    cases he
    exact h.store hs hfine v
  | trap vector errorCode scancode L =>
    unfold Machine.step at he
    unfold MachineOp.Fine at hfine
    dsimp only at he hfine
    cases hgate : T.gates vector with
    | none =>
      rw [hgate] at he
      cases he
    | some gate =>
      rw [hgate] at he hfine
      cases gate with
      | idtZero => cases he
      | interrupt n => exact h.interrupt hs hfine he
      | isr80hWrapper => exact h.isr80h hF hR hs hfine he

/-! ## Runs -/

/-- A step that does not return leaves the machine as it is. -/
def Machine.next (F : FileLayer σ) (T : TrapTables) (past : UInt8) (M : Machine σ) (op : MachineOp) :
    Machine σ :=
  (M.step F T past op).getD M

theorem Machine.Ok.next (hF : F.Sound owned) (hR : F.Regular) (past : UInt8)
    (h : M.Ok owned rest K₀ obj dir table live) (hs : M.Runs s) {op : MachineOp} (hfine : op.Fine F T M) :
    ∃ obj' dir' table' live', (M.next F T past op).Ok owned rest K₀ obj' dir' table' live' ∧
      M.Outcome (M.next F T past op) s obj obj' := by
  unfold Machine.next
  cases he : M.step F T past op with
  | none => exact ⟨obj, dir, table, live, h, (Serves.refl h.scheduled s).others, .inl hs⟩
  | some M' => exact h.step hF hR hs hfine he

theorem Machine.Ok.run (hF : F.Sound owned) (hR : F.Regular) {os : List MachineOp}
    (h : ∃ obj dir table live, M.Ok owned rest K₀ obj dir table live)
    (hos : Run.Steps (Machine.next F T past) (MachineOp.Fine F T) M os) :
    ∃ obj dir table live, (Run.exec (Machine.next F T past) M os).Ok owned rest K₀ obj dir table live := by
  refine Run.Steps.inv (I := fun M => ∃ obj dir table live, M.Ok owned rest K₀ obj dir table live)
    (fun M op h hop => ?_) h hos
  obtain ⟨obj, dir, table, live, h⟩ := h
  obtain ⟨s, hs⟩ := h.runs
  obtain ⟨obj', dir', table', live', h', -⟩ := h.next hF hR past hs hop
  exact ⟨obj', dir', table', live', h'⟩

end

end Pandora
