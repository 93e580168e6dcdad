import Pandora.Idt.Defs
import Pandora.Process.Scheduled

/-!
# The handlers and the processes (`isr80h`, `idt/idt.c`)

A handler works on behalf of the process whose task is current, in slot `s`. It ends well (`SyscallEnd.Good`)
if it returns with that task still current, or enters another one and has left alone what the process in slot
`s` has, unless that process has ended. `Isr80hCommand.Fine` is what is asked of the program for that, and of
the heap.
-/

namespace Pandora

open ByteMem

section

variable {σ : Type}

/-- What is asked where the command is called in `K`. -/
def Isr80hCommand.Fine (F : FileLayer σ) (L : Locals) (K : Kernel σ) : Isr80hCommand → Prop
  | malloc =>
    let size := taskGetStackItem K K.queue.current 0
    1 ≤ size ∧ size ≤ 2 ^ 32 - 4096 ∧ ¬ K.kmem.heap.RunsShort (blocksFor size)
  | processLoadStart => ∀ path K', isr80hCommand6Path L K = some (some path, K') →
      (UserStep.call (.loadSwitch path 0 L.stale)).Fine F K'
  | invokeSystemCommand =>
    let arguments := taskVirtualAddressToPhysical K K.queue.current
      (taskGetStackItem K K.queue.current 0)
    let path := pathPrefix ++ stringPrefix K.mem (maxPath - 1) arguments
    (UserStep.call (.loadSwitch path 0 L.stale)).Fine F K ∧
      ∀ res process K', processLoadSwitch F K path 0 L.stale = (res, process, K') → 0 ≤ res →
        ∀ argc, processCountCommandArguments K'.mem argumentFuel arguments 0 = some argc →
          4 * argc ≤ 2 ^ 32 - 4096 ∧ ¬ K'.kmem.heap.RunsShort (blocksFor (4 * argc))
  | getProgramArguments => K.ArgumentsWritable
  | exit => K.Unlinkable
  | _ => True

/-- What comes of a handler that works in `K` on behalf of slot `s` (module doc). -/
inductive SyscallEnd.Good (owned : σ → Nat → Prop) (rest : Nat → Prop) (K₀ K : Kernel σ) (s : Nat)
    (obj : Nat → Role → Option (Nat × Nat)) (live : List Nat) : SyscallEnd σ → Prop where
  | returned (value : Nat) {K' : Kernel σ} {obj' : Nat → Role → Option (Nat × Nat)} {dir' : Nat → Nat}
      {table' : Nat → Nat → Nat} {live' : List Nat}
      (serves : Serves owned rest K₀ K K' s obj obj' dir' table' live live') (lives : K'.LiveSlot s)
      (task : K'.taskOf s = K.taskOf s) (current : K'.queue.current = K.queue.current) :
      Good owned rest K₀ K s obj live (.returned value K')
  | entered {K' : Kernel σ} {obj' : Nat → Role → Option (Nat × Nat)} {dir' : Nat → Nat}
      {table' : Nat → Nat → Nat} {live' : List Nat}
      (serves : Serves owned rest K₀ K K' s obj obj' dir' table' live live')
      (left : K'.LiveSlot s → obj' s = obj s ∧ Left K K' s (obj s)) :
      Good owned rest K₀ K s obj live (.entered K')

end

section

variable {σ : Type} {F : FileLayer σ} {owned : σ → Nat → Prop} {rest : Nat → Prop}
  {K₀ K K' K₁ : Kernel σ} {obj obj' : Nat → Role → Option (Nat × Nat)} {dir dir' : Nat → Nat}
  {table table' : Nat → Nat → Nat} {live live' : List Nat} {s : Nat} {L : Locals}

/-! ## Ends -/

/-- The process has worked on what it has. -/
theorem Scheduled.worked (h : Scheduled owned rest K₀ K obj dir table live) (hs : K.LiveSlot s)
    (hstep : ∃ obj' dir' table', StepOn owned rest K₀ K K' s obj table obj' dir' table')
    (hk : K.TasksKept K') (value : Nat) :
    (SyscallEnd.returned value K').Good owned rest K₀ K s obj live := by
  obtain ⟨obj', dir', table', hstep⟩ := hstep
  have hprocesses : K'.processes = K.processes := by rw [hk.state]
  refine .returned value (h.serve hstep hk) ⟨hs.1, by rw [hprocesses]; exact hs.2⟩ ?_ (by rw [hk.state])
  unfold Kernel.taskOf
  rw [hprocesses]
  exact hk.task _

/-- Nothing that any process has was changed, and the handler returns. -/
theorem Scheduled.returned (h : Scheduled owned rest K₀ K obj dir table live) (hs : K.LiveSlot s)
    (hserves : ∀ c, Serves owned rest K₀ K K' c obj obj' dir' table' live live')
    (hcur : K'.queue.current = K.queue.current) (value : Nat) :
    (SyscallEnd.returned value K').Good owned rest K₀ K s obj live := by
  obtain ⟨-, hl⟩ := (hserves maxProcesses).others s hs (Nat.ne_of_lt hs.1)
  exact .returned value (hserves s) (hl.liveSlot hs) (h.kept_taskOf hs hl.kept) hcur

/-- Nothing that any process has was changed, and a task is entered. -/
theorem entered_good (hs : K.LiveSlot s)
    (hserves : ∀ c, Serves owned rest K₀ K K' c obj obj' dir' table' live live') :
    (SyscallEnd.entered K').Good owned rest K₀ K s obj live :=
  .entered (hserves s) fun _ => (hserves maxProcesses).others s hs (Nat.ne_of_lt hs.1)

/-- The task of a process in the table is entered. -/
theorem Scheduled.entered (h : Scheduled owned rest K₀ K obj dir table live) (hs : K.LiveSlot s)
    (hserves : ∀ c, Serves owned rest K₀ K K' c obj obj' dir' table' live live') {t : Nat}
    (ht : K'.LiveSlot t) :
    (SyscallEnd.entered (taskSwitch K' (K'.taskOf t))).Good owned rest K₀ K s obj live :=
  entered_good hs fun c => (hserves c).trans h
    ((hserves c).scheduled.switch ((hserves c).scheduled.taskOf_mem ht) c)

/-! ## The path of system call 6 -/

theorem command6Path_mem {m : Mem} {path filename x : Nat} {t : Traced}
    (h : command6Path m path filename = some t) (hpath : path + 3 + maxPath ≤ 2 ^ 32)
    (hx : path + 3 + maxPath ≤ x) : t.mem x = m x := by
  unfold maxPath at *
  rw [Traced.copyUntil_mem maxPath 0 _ hpath h (.inr hx), pathStart_mem (.inr (by omega))]

/-- What processes have is not changed where the path is built. -/
theorem Scheduled.command6Path (h : Scheduled owned rest K₀ K obj dir table live) (hs : K.LiveSlot s)
    (hat : K.taskOf s = K.queue.current) {path : Option (List UInt8)}
    (he : isr80hCommand6Path L K = some (path, K')) :
    K.TasksKept K' ∧ ∀ t, StepOn owned rest K₀ K K' t obj table obj dir table := by
  have hfilename := L.filename_below
  have hpath := L.path_below
  unfold tssEsp0 at hfilename hpath
  unfold isr80hCommand6Path at he
  dsimp only at he
  rw [← hat] at he
  cases hcopy : copyStringFromTask K (K.taskOf s) (taskGetStackItem K (K.taskOf s) 0) L.filename maxPath with
  | none =>
    rw [hcopy] at he
    cases he
  | some r =>
    obtain ⟨res, K₁⟩ := r
    rw [hcopy] at he
    dsimp only at he
    have hcopied := fun t => h.copyString hs (c := 107) (by omega) (by unfold maxPath at *; omega) hcopy t
    have hk : K.TasksKept K₁ := by
      rw [(hcopied 0).1]
      exact K.tasksKept_mem _
    split at he
    · cases he
      exact ⟨hk, fun t => (hcopied t).2⟩
    · split at he
      · cases he
      · rename_i tr htr
        obtain ⟨len, -, heq⟩ := Option.map_eq_some_iff.1 he
        cases heq
        refine ⟨hk.trans (K₁.tasksKept_mem _), fun t => ?_⟩
        have hwrite := (hcopied t).2.confined.writeOutside (m := tr.mem)
          (fun x hx _ => command6Path_mem htr (by omega) (by omega)) t
        exact (hcopied t).2.trans hwrite

/-! ## The commands -/

theorem Scheduled.processLoadStart (hF : F.Sound owned) (hR : F.Regular)
    (h : Scheduled owned rest K₀ K obj dir table live) (hne : live ≠ []) (hs : K.LiveSlot s)
    (hat : K.taskOf s = K.queue.current) (hfine : Isr80hCommand.processLoadStart.Fine F L K)
    {e : SyscallEnd σ} (he : isr80hCommand6ProcessLoadStart F L K = some e) :
    e.Good owned rest K₀ K s obj live := by
  unfold isr80hCommand6ProcessLoadStart at he
  cases hpath : isr80hCommand6Path L K with
  | none =>
    rw [hpath] at he
    cases he
  | some r =>
    obtain ⟨path, K₁⟩ := r
    obtain ⟨hk, hstep⟩ := h.command6Path hs hat hpath
    have h₁ := fun c => h.serve (hstep c) hk
    have hcur₁ : K₁.queue.current = K.queue.current := by rw [hk.state]
    rw [hpath] at he
    cases path with
    | none =>
      cases he
      exact h.returned hs h₁ hcur₁ 0
    | some path =>
      obtain ⟨res, p, K₂, hload, obj', dir', table', live', h₂, hnew, hcur₂, -⟩ :=
        (h₁ 0).scheduled.loadSwitch hF hR (hfine path K₁ hpath) fun _ => hne
      dsimp only at he
      rw [hload] at he
      dsimp only at he
      have h₁₂ := fun c => (h₁ c).trans h (h₂ c)
      split at he
      · cases he
        exact h.returned hs h₁₂ ((hcur₂ hne).trans hcur₁) 0
      · cases he
        obtain ⟨t, -, ht, rfl⟩ := hnew (by omega)
        exact h.entered hs h₁₂ ht

/-- Arguments are injected into a process that is new. -/
theorem Scheduled.injectNew (h : Scheduled owned rest K₀ K obj dir table live)
    (h₁ : ∀ c, Serves owned rest K₀ K K₁ c obj obj' dir' table' live live') {t : Nat}
    (hnew : ¬ K.LiveSlot t) (ht : K₁.LiveSlot t) {root : Nat} {res : Int}
    (hargc : ∀ argc, processCountCommandArguments K₁.mem argumentFuel root 0 = some argc →
      4 * argc ≤ 2 ^ 32 - 4096 ∧ ¬ K₁.kmem.heap.RunsShort (blocksFor (4 * argc)))
    (he : processInjectArguments K₁ (K₁.processes t) root = some (res, K')) :
    K₁.TasksKept K' ∧ ∃ obj'' dir'' table'', ∀ c,
      Serves owned rest K₀ K K' c obj obj'' dir'' table'' live live' := by
  have hk := tasksKept_processInjectArguments he
  obtain ⟨obj'', dir'', table'', hstep⟩ := (h₁ 0).scheduled.inject ht (fun argc hc => (hargc argc hc).1)
    (fun argc hc => (hargc argc hc).2) he
  have h₂ := ((h₁ t).trans h ((h₁ t).scheduled.serve hstep hk))
  refine ⟨hk, obj'', dir'', table'', fun c => h₂.of_new hnew ?_ c⟩
  -- the registers it starts with
  have hsaved : K'.saved t = K₁.saved t := by
    unfold Kernel.saved Kernel.taskOf
    rw [hk.task, hk.state]
  rw [hsaved]
  exact (h₁ (t + 1)).user t ht hnew (by omega)

theorem Scheduled.invokeSystemCommand (hF : F.Sound owned) (hR : F.Regular)
    (h : Scheduled owned rest K₀ K obj dir table live) (hne : live ≠ []) (hs : K.LiveSlot s)
    (hfine : Isr80hCommand.invokeSystemCommand.Fine F L K) {e : SyscallEnd σ}
    (he : isr80hCommand7InvokeSystemCommand F K (taskGetStackItem K K.queue.current 0) L.stale = some e) :
    e.Good owned rest K₀ K s obj live := by
  have hself : ∀ c, Serves owned rest K₀ K K c obj obj dir table live live := fun c => .refl h c
  unfold isr80hCommand7InvokeSystemCommand at he
  unfold Isr80hCommand.Fine at hfine
  dsimp only at he hfine
  obtain ⟨arguments, harguments⟩ : ∃ a, taskVirtualAddressToPhysical K K.queue.current
    (taskGetStackItem K K.queue.current 0) = a := ⟨_, rfl⟩
  rw [harguments] at he hfine
  obtain ⟨hload, hargc⟩ := hfine
  split at he
  · cases he
    exact h.returned hs hself rfl _
  split at he
  · cases he
  · cases he
    exact h.returned hs hself rfl _
  split at he
  · cases he
  obtain ⟨res, p, K₁, hloaded, obj', dir', table', live', h₁, hnew, hcur, -⟩ :=
    h.loadSwitch hF hR hload fun _ => hne
  rw [hloaded] at he
  dsimp only at he
  split at he
  · cases he
    exact h.returned hs h₁ (hcur hne) _
  obtain ⟨t, hfree, ht, rfl⟩ := hnew (by omega)
  cases hinject : processInjectArguments K₁ (K₁.processes t) arguments with
  | none =>
    rw [hinject] at he
    cases he
  | some r =>
    obtain ⟨res', K₂⟩ := r
    rw [hinject] at he
    dsimp only at he
    obtain ⟨hk, obj'', dir'', table'', h₂⟩ := h.injectNew h₁ hfree ht (hargc _ _ _ hloaded (by omega)) hinject
    split at he
    · cases he
      refine h.returned hs h₂ ?_ _
      rw [hk.state]
      exact hcur hne
    · cases he
      have hprocesses : K₂.processes = K₁.processes := by rw [hk.state]
      rw [← hprocesses]
      exact h.entered hs h₂ ⟨ht.1, by rw [hprocesses]; exact ht.2⟩

/-- A command id out of range, or without a command, is answered with null. -/
theorem isr80hHandleCommand_cases {T : TrapTables} {t t' : Terminal} {command : Int} {e : SyscallEnd σ}
    (he : isr80hHandleCommand F T L K t command = some (e, t')) :
    e = .returned 0 K ∨
      ∃ c, T.isr80hCommands command.toNat = some c ∧ c.call F L K t = some (e, t') := by
  unfold isr80hHandleCommand at he
  split at he
  · cases he
    exact .inl rfl
  split at he
  · cases he
    exact .inl rfl
  · rename_i c hc
    exact .inr ⟨c, hc, he⟩

/-- **A system call ends well** that is made by the process in slot `s`. -/
theorem Scheduled.call (hF : F.Sound owned) (hR : F.Regular)
    (h : Scheduled owned rest K₀ K obj dir table live) (hne : live ≠ []) (h0 : K.currentProcess ≠ 0)
    (hs : K.LiveSlot s) (hat : K.taskOf s = K.queue.current) {command : Isr80hCommand}
    (hfine : command.Fine F L K) {t t' : Terminal} {e : SyscallEnd σ}
    (he : command.call F L K t = some (e, t')) : e.Good owned rest K₀ K s obj live := by
  have hpoller : K.poller = K.processes s := by
    unfold Kernel.poller
    rw [← hat, h.owner s hs]
  have hpoller' : (K.queue.task K.queue.current).process = K.processes s := hpoller
  have hself : ∀ c, Serves owned rest K₀ K K c obj obj dir table live live := fun c => .refl h c
  cases command with
  | sum =>
    cases he
    exact h.returned hs hself rfl _
  | print =>
    have hbuf := L.buf_below
    unfold tssEsp0 at hbuf
    obtain ⟨⟨K', t₁⟩, hprint, heq⟩ := Option.map_eq_some_iff.1 he
    cases heq
    unfold isr80hCommand1Print at hprint
    dsimp only at hprint
    rw [← hat] at hprint
    split at hprint
    · cases hprint
    · rename_i hcopy
      obtain ⟨len, -, heq⟩ := Option.map_eq_some_iff.1 hprint
      cases heq
      obtain ⟨hstate, hstep⟩ := h.copyString hs (c := 1023) (by omega) (by omega) hcopy s
      refine h.worked hs ⟨_, _, _, hstep⟩ ?_ 0
      rw [hstate]
      exact K.tasksKept_mem _
  | getkey =>
    cases he
    have hserves := fun c => h.getkey hs hpoller c
    exact h.returned hs (fun c => (hserves c).1) (by rw [(hserves 0).2]) _
  | putchar =>
    cases he
    exact h.returned hs hself rfl _
  | malloc =>
    obtain ⟨h1, h2, hshort⟩ := hfine
    have hstep := h.malloc hs h1 h2 hshort
    have hk := tasksKept_processMalloc K (K.processes s) (taskGetStackItem K K.queue.current 0)
    unfold Isr80hCommand.call isr80hCommand4Malloc at he
    dsimp only at he
    rw [hpoller'] at he
    obtain ⟨⟨ptr, K₁⟩, hmalloc⟩ : ∃ r, processMalloc K (K.processes s)
      (taskGetStackItem K K.queue.current 0) = r := ⟨_, rfl⟩
    rw [hmalloc] at he hstep hk
    cases he
    exact h.worked hs hstep hk ptr
  | free =>
    unfold Isr80hCommand.call isr80hCommand5Free at he
    dsimp only at he
    rw [hpoller'] at he
    cases he
    exact h.worked hs (h.free hs _) (tasksKept_processFree _ _ _) _
  | processLoadStart =>
    obtain ⟨e', hload, heq⟩ := Option.map_eq_some_iff.1 he
    cases heq
    exact h.processLoadStart hF hR hne hs hat hfine hload
  | invokeSystemCommand =>
    obtain ⟨e', hload, heq⟩ := Option.map_eq_some_iff.1 he
    cases heq
    exact h.invokeSystemCommand hF hR hne hs hfine hload
  | getProgramArguments =>
    cases he
    exact h.worked hs ⟨_, _, _, h.getArguments hs hpoller hfine⟩ (K.tasksKept_mem _) _
  | exit =>
    obtain ⟨K', hexit, heq⟩ := Option.map_eq_some_iff.1 he
    cases heq
    obtain ⟨hgone, obj', dir', table', live', hserves⟩ := h.exit hne h0 hs hat hfine hexit
    exact .entered hserves fun hlive => absurd hlive hgone

end

end Pandora
