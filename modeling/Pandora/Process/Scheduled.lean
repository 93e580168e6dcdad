import Pandora.Process.Handlers
import Pandora.Task.Chain

/-!
# The tasks of the processes (`task/task.c`, `task/process.c`)

`Scheduled`: the programs are confined, and the tasks in the list are those of the processes in the table.
What the kernel does on behalf of one slot keeps it, and leaves what the other processes have alone, with the
registers that are saved for them (`Serves`); only keys come in for them.
-/

namespace Pandora

open Linked

/-- The registers are those of a program in user mode. -/
structure Registers.User (R : Registers) : Prop where
  cs : R.cs = userCodeSegment
  ss : R.ss = userDataSegment

section

variable {σ : Type}

/-- The task of the process in slot `s`. -/
def Kernel.taskOf (K : Kernel σ) (s : Nat) : Nat := (K.processAt (K.processes s)).task

/-- The registers that are saved for the process in slot `s`. -/
def Kernel.saved (K : Kernel σ) (s : Nat) : Registers := (K.queue.task (K.taskOf s)).registers

/-- The programs are confined, and their tasks are listed (module doc). -/
structure Scheduled (owned : σ → Nat → Prop) (rest : Nat → Prop) (K₀ K : Kernel σ)
    (obj : Nat → Role → Option (Nat × Nat)) (dir : Nat → Nat) (table : Nat → Nat → Nat)
    (live : List Nat) : Prop extends Confined owned rest K₀ K obj dir table where
  chained : Chained K.queue live
  tasks : ∀ t, t ∈ live ↔ ∃ s, K.LiveSlot s ∧ K.taskOf s = t
  owner : ∀ s, K.LiveSlot s → (K.queue.task (K.taskOf s)).process = K.processes s
  focus : K.currentProcess = 0 ∨ ∃ s, K.LiveSlot s ∧ K.processes s = K.currentProcess

/-- What the process in slot `s` has is the same but for its keys. -/
def KeptButKeys (K K' : Kernel σ) (s : Nat) (o : Role → Option (Nat × Nat)) : Prop :=
  ∃ kb, Kept K (K'.withKeyboard (K.processes s) kb) s o

/-- Besides, its saved registers are the same. -/
structure Left (K K' : Kernel σ) (s : Nat) (o : Role → Option (Nat × Nat)) : Prop where
  kept : KeptButKeys K K' s o
  registers : (K'.queue.task (K.taskOf s)).registers = K.saved s

/-- A step from `K` to `K'` on behalf of slot `c` (module doc). -/
structure Serves (owned : σ → Nat → Prop) (rest : Nat → Prop) (K₀ K K' : Kernel σ) (c : Nat)
    (obj obj' : Nat → Role → Option (Nat × Nat)) (dir' : Nat → Nat) (table' : Nat → Nat → Nat)
    (live live' : List Nat) : Prop where
  scheduled : Scheduled owned rest K₀ K' obj' dir' table' live'
  alive : live ≠ [] → K.currentProcess ≠ 0 → live' ≠ [] ∧ K'.currentProcess ≠ 0
  others : ∀ s, K.LiveSlot s → s ≠ c → obj' s = obj s ∧ Left K K' s (obj s)
  /-- A process that is new starts in user mode. -/
  user : ∀ s, K'.LiveSlot s → ¬ K.LiveSlot s → s ≠ c → (K'.saved s).User

end

section

variable {σ : Type} {F : FileLayer σ} {owned : σ → Nat → Prop} {rest : Nat → Prop}
  {K₀ K K' K'' : Kernel σ} {obj obj' obj'' : Nat → Role → Option (Nat × Nat)} {dir dir' dir'' : Nat → Nat}
  {table table' table'' : Nat → Nat → Nat} {live live' live'' : List Nat} {c s t : Nat}

/-! ## Keys -/

theorem Kernel.withKeyboard_self (K : Kernel σ) (process : Nat) :
    K.withKeyboard process (K.processAt process).keyboard = K := by
  unfold Kernel.withKeyboard Kernel.setProcess
  rw [Function.update_eq_self]

theorem Kernel.withKeyboard_idem (K : Kernel σ) (process : Nat) (kb kb' : KeyboardBuffer) :
    (K.withKeyboard process kb).withKeyboard process kb' = K.withKeyboard process kb' := by
  unfold Kernel.withKeyboard Kernel.setProcess
  simp only [Function.update_idem, Function.update_self]

/-- A field of the processes that is not the keyboard. -/
theorem Kernel.withKeyboard_field {α : Type} (g : Process → α)
    (hg : ∀ v kb, g { v with keyboard := kb } = g v) (K : Kernel σ) (process : Nat) (kb : KeyboardBuffer)
    (p : Nat) : g ((K.withKeyboard process kb).processAt p) = g (K.processAt p) := by
  unfold Kernel.withKeyboard Kernel.setProcess
  dsimp only
  by_cases hp : p = process
  · rw [hp, Function.update_self, hg]
  · rw [Function.update_of_ne hp]

/-- What is kept is kept with other keys on both sides. -/
theorem Kept.withKeyboard {o : Role → Option (Nat × Nat)} {p : Nat} {kb' : KeyboardBuffer}
    (h : Kept K (K'.withKeyboard p kb') s o) (kb : KeyboardBuffer) :
    Kept (K.withKeyboard p kb) (K'.withKeyboard p kb) s o where
  blocks := fun r j hj => by
    obtain ⟨he, hm, hst⟩ := h.blocks r j hj
    refine ⟨he, hm, ?_, hst.elfFile, hst.task⟩
    have hprocess := hst.process
    unfold Kernel.withKeyboard Kernel.setProcess at hprocess ⊢
    dsimp only at hprocess ⊢
    by_cases hp : blockAddr j = p
    · rw [hp, Function.update_self] at hprocess
      rw [hp, Function.update_self, Function.update_self, ← hprocess]
    · rw [Function.update_of_ne hp] at hprocess
      rw [Function.update_of_ne hp, Function.update_of_ne hp, hprocess]
  slot := h.slot

/-! ## What is left alone -/

theorem Kept.butKeys {o : Role → Option (Nat × Nat)} (h : Kept K K' s o) : KeptButKeys K K' s o :=
  ⟨(K'.processAt (K.processes s)).keyboard, by
    rw [K'.withKeyboard_self]
    exact h⟩

theorem KeptButKeys.slot {o : Role → Option (Nat × Nat)} (h : KeptButKeys K K' s o) :
    K'.processes s = K.processes s := by
  obtain ⟨kb, hk⟩ := h
  exact hk.slot

theorem KeptButKeys.trans {o : Role → Option (Nat × Nat)} (h : KeptButKeys K K' s o)
    (h' : KeptButKeys K' K'' s o) : KeptButKeys K K'' s o := by
  have hslot := h.slot
  obtain ⟨kb, hk⟩ := h
  obtain ⟨kb', hk'⟩ := h'
  rw [hslot] at hk'
  exact ⟨kb, hk.trans (hk'.withKeyboard kb)⟩

theorem Left.refl (K : Kernel σ) (s : Nat) (o : Role → Option (Nat × Nat)) : Left K K s o where
  kept := (Kept.refl K s o).butKeys
  registers := rfl

theorem Left.of_kept {o : Role → Option (Nat × Nat)} (h : Kept K K' s o)
    (hr : (K'.queue.task (K.taskOf s)).registers = K.saved s) : Left K K' s o where
  kept := h.butKeys
  registers := hr

theorem Left.liveSlot {o : Role → Option (Nat × Nat)} (h : Left K K' s o) (hs : K.LiveSlot s) :
    K'.LiveSlot s :=
  ⟨hs.1, by rw [h.kept.slot]; exact hs.2⟩

theorem Confined.kept_taskOf (h : Confined owned rest K₀ K obj dir table) (hs : K.LiveSlot s)
    (hl : KeptButKeys K K' s (obj s)) : K'.taskOf s = K.taskOf s := by
  have hslot := hl.slot
  obtain ⟨kb, hk⟩ := hl
  have hat := (h.holdings s hs.1 hs.2).processAt (h.scope.part s) hk.sameOwn
  have hfield := K'.withKeyboard_field Process.task (fun _ _ => rfl) (K.processes s) kb (K.processes s)
  unfold Kernel.taskOf
  rw [hslot, ← hfield, hat]

/-- The saved registers are the same. -/
theorem Confined.left_saved (h : Confined owned rest K₀ K obj dir table) (hs : K.LiveSlot s)
    (hl : Left K K' s (obj s)) : K'.saved s = K.saved s := by
  unfold Kernel.saved at *
  rw [h.kept_taskOf hs hl.kept]
  exact hl.registers

theorem Left.trans (h : Confined owned rest K₀ K obj dir table) (hs : K.LiveSlot s)
    (hl : Left K K' s (obj s)) (hl' : Left K' K'' s (obj s)) : Left K K'' s (obj s) where
  kept := hl.kept.trans hl'.kept
  registers := by
    rw [← h.left_saved hs hl, ← hl'.registers, h.kept_taskOf hs hl.kept]

theorem Serves.trans (h : Scheduled owned rest K₀ K obj dir table live)
    (h₁ : Serves owned rest K₀ K K' c obj obj' dir' table' live live')
    (h₂ : Serves owned rest K₀ K' K'' c obj' obj'' dir'' table'' live' live'') :
    Serves owned rest K₀ K K'' c obj obj'' dir'' table'' live live'' where
  scheduled := h₂.scheduled
  alive := fun hne h0 => by
    obtain ⟨hne', h0'⟩ := h₁.alive hne h0
    exact h₂.alive hne' h0'
  others := fun s hs hne => by
    obtain ⟨hobj, hl⟩ := h₁.others s hs hne
    obtain ⟨hobj', hl'⟩ := h₂.others s (hl.liveSlot hs) hne
    rw [hobj] at hobj' hl'
    exact ⟨hobj', .trans h.toConfined hs hl hl'⟩
  user := fun s hs hnew hne => by
    by_cases hs' : K'.LiveSlot s
    · rw [h₁.scheduled.left_saved hs' (h₂.others s hs' hne).2]
      exact h₁.user s hs' hnew hne
    · exact h₂.user s hs hs' hne

theorem Serves.refl (h : Scheduled owned rest K₀ K obj dir table live) (c : Nat) :
    Serves owned rest K₀ K K c obj obj dir table live live :=
  ⟨h, fun hne h0 => ⟨hne, h0⟩, fun s _ _ => ⟨rfl, .refl K s (obj s)⟩, fun _ hs hno => absurd hs hno⟩

/-- A step on behalf of a process that is new leaves all the others alone. -/
theorem Serves.of_new (h : Serves owned rest K₀ K K' t obj obj' dir' table' live live') (ht : ¬ K.LiveSlot t)
    (hu : (K'.saved t).User) (c : Nat) : Serves owned rest K₀ K K' c obj obj' dir' table' live live' where
  scheduled := h.scheduled
  alive := h.alive
  others := fun s hs _ => h.others s hs fun he => ht (he ▸ hs)
  user := fun s hs hnew _ => by
    by_cases hst : s = t
    · rwa [hst]
    · exact h.user s hs hnew hst

/-! ## The tasks -/

/-- Two processes have two tasks. -/
theorem World.taskOf_inj (h : World owned rest K₀ K obj dir table) (hs : K.LiveSlot s) (ht : K.LiveSlot t)
    (he : K.taskOf s = K.taskOf t) : s = t := by
  obtain ⟨b, n, hb, hat⟩ := (h.holdings s hs.1 hs.2).task
  obtain ⟨b', n', hb', hat'⟩ := (h.holdings t ht.1 ht.2).task
  unfold Kernel.taskOf at he
  rw [hat, hat'] at he
  obtain rfl := blockAddr_inj.1 he
  exact (h.one_role ((h.scope.part t).first hb') ((h.scope.part s).first hb)).1

theorem Scheduled.taskOf_mem (h : Scheduled owned rest K₀ K obj dir table live) (hs : K.LiveSlot s) :
    K.taskOf s ∈ live := (h.tasks _).2 ⟨s, hs, rfl⟩

/-- The current task is that of a process in the table, which polls the keyboard. -/
theorem Scheduled.running (h : Scheduled owned rest K₀ K obj dir table live) (hne : live ≠ []) :
    ∃ s, K.LiveSlot s ∧ K.taskOf s = K.queue.current ∧ K.poller = K.processes s := by
  obtain ⟨s, hs, ht⟩ := (h.tasks _).1 (h.chained.current hne)
  refine ⟨s, hs, ht, ?_⟩
  unfold Kernel.poller
  rw [← ht, h.owner s hs]

/-! ## Work on behalf of one slot -/

/-- Neither the list nor the table has changed. -/
theorem Scheduled.keep (h : Scheduled owned rest K₀ K obj dir table live)
    (hc : Confined owned rest K₀ K' obj' dir' table') (hk : K.TasksKept K') :
    Scheduled owned rest K₀ K' obj' dir' table' live := by
  have hqueue : K'.queue = K.queue := by rw [hk.state]
  have hprocesses : K'.processes = K.processes := by rw [hk.state]
  have hcurrent : K'.currentProcess = K.currentProcess := by rw [hk.state]
  have hlive : ∀ s, K'.LiveSlot s ↔ K.LiveSlot s := fun s => by
    unfold Kernel.LiveSlot
    rw [hprocesses]
  have htask : ∀ s, K'.taskOf s = K.taskOf s := fun s => by
    unfold Kernel.taskOf
    rw [hprocesses]
    exact hk.task _
  refine ⟨hc, hqueue ▸ h.chained, fun t => ?_, fun s hs => ?_, ?_⟩
  · simp only [hlive, htask]
    exact h.tasks t
  · rw [hqueue, hprocesses, htask]
    exact h.owner s ((hlive s).1 hs)
  · simp only [hlive, hcurrent, hprocesses]
    exact h.focus

theorem Scheduled.serve (h : Scheduled owned rest K₀ K obj dir table live)
    (hstep : StepOn owned rest K₀ K K' c obj table obj' dir' table') (hk : K.TasksKept K') :
    Serves owned rest K₀ K K' c obj obj' dir' table' live live where
  scheduled := h.keep hstep.confined hk
  alive := fun hne h0 => ⟨hne, by rw [hk.state]; exact h0⟩
  others := fun s _ hne => by
    refine ⟨hstep.sameObj s hne, .of_kept (hstep.kept s hne) ?_⟩
    rw [hk.state]
    rfl
  user := fun s hs hno _ => by
    have hprocesses : K'.processes = K.processes := by rw [hk.state]
    exact absurd ⟨hs.1, by rw [← hprocesses]; exact hs.2⟩ hno

/-- Keys of any process change. -/
theorem Scheduled.keys (h : Scheduled owned rest K₀ K obj dir table live) (hs : K.LiveSlot s)
    (kb : KeyboardBuffer) (c : Nat) :
    Serves owned rest K₀ K (K.withKeyboard (K.processes s) kb) c obj obj dir table live live := by
  have hstep : StepOn owned rest K₀ K (K.withKeyboard (K.processes s) kb) s obj table obj dir table :=
    h.setFields hs ⟨rfl, rfl, rfl, rfl, rfl, rfl⟩ rfl
  have hk : K.TasksKept (K.withKeyboard (K.processes s) kb) := (Kernel.TasksKept.refl K).setProcess rfl
  refine ⟨h.keep hstep.confined hk, fun hne h0 => ⟨hne, h0⟩, fun t _ _ => ⟨rfl, ?_⟩,
    fun _ hs hno => absurd hs hno⟩
  by_cases he : t = s
  · subst he
    refine ⟨⟨(K.processAt (K.processes t)).keyboard, ?_⟩, rfl⟩
    rw [K.withKeyboard_idem, K.withKeyboard_self]
    exact .refl K t _
  · exact .of_kept (hstep.kept t he) rfl

/-- A key is pushed for the current process, whatever task is current. -/
theorem Scheduled.push (h : Scheduled owned rest K₀ K obj dir table live) (past : UInt8)
    (capslock : KeyboardCapsLockState) (scancode : UInt8) (c : Nat) :
    Serves owned rest K₀ K (pso2KeyboardHandleInterrupt past capslock K scancode).2 c obj obj dir table
        live live ∧
      (pso2KeyboardHandleInterrupt past capslock K scancode).2.queue = K.queue := by
  rcases handleInterrupt_cases past capslock K scancode with he | ⟨hne, kb, he⟩
  · rw [he]
    exact ⟨.refl h c, rfl⟩
  · obtain ⟨s, hs, hfocus⟩ := h.focus.resolve_left hne
    rw [he, ← hfocus]
    exact ⟨h.keys hs kb c, rfl⟩

theorem Scheduled.getkey (h : Scheduled owned rest K₀ K obj dir table live) (hs : K.LiveSlot s)
    (hpoller : K.poller = K.processes s) (c : Nat) :
    Serves owned rest K₀ K (isr80hCommand2Getkey K).2 c obj obj dir table live live ∧
      (isr80hCommand2Getkey K).2.queue = K.queue := by
  change Serves owned rest K₀ K (keyboardPop K).2 c obj obj dir table live live ∧
    (keyboardPop K).2.queue = K.queue
  rcases keyboardPop_cases K with he | ⟨kb, he⟩
  · rw [he]
    exact ⟨.refl h c, rfl⟩
  · rw [he, hpoller]
    exact ⟨h.keys hs kb c, rfl⟩

/-! ## Switches -/

/-- Links, saved registers of slot `c`, the current task and the current process change. -/
theorem Scheduled.requeue (h : Scheduled owned rest K₀ K obj dir table live) {q : TaskQueue} {p : Nat}
    (hdir : ∀ a, (q.task a).pageDirectory = (K.queue.task a).pageDirectory)
    (howner : ∀ a, (q.task a).process = (K.queue.task a).process) (hchained : Chained q live)
    (hfocus : p = K.currentProcess ∨ ∃ s, K.LiveSlot s ∧ K.processes s = p)
    (hregs : ∀ s, K.LiveSlot s → s ≠ c → (q.task (K.taskOf s)).registers = K.saved s) :
    Serves owned rest K₀ K { K with queue := q, currentProcess := p } c obj obj dir table live live := by
  have hstep : StepOn owned rest K₀ K { K with queue := q, currentProcess := p } c obj table obj dir
      table := Confined.requeue h.toConfined hdir c
  refine ⟨⟨hstep.confined, hchained, h.tasks, fun s hs => (howner _).trans (h.owner s hs), ?_⟩,
    fun hne h0 => ⟨hne, ?_⟩, fun s hs hne => ⟨rfl, .of_kept (hstep.kept s hne) (hregs s hs hne)⟩,
    fun _ hs hno => absurd hs hno⟩
  · rcases hfocus with rfl | hfocus
    · exact h.focus
    · exact .inr hfocus
  · rcases hfocus with rfl | ⟨s, hs, rfl⟩
    · exact h0
    · exact hs.2

/-- `task_switch` -/
theorem Scheduled.switch (h : Scheduled owned rest K₀ K obj dir table live) (ht : t ∈ live) (c : Nat) :
    Serves owned rest K₀ K (taskSwitch K t) c obj obj dir table live live :=
  h.requeue (fun _ => rfl) (fun _ => rfl) (h.chained.switch ht) (.inl rfl) fun _ _ _ => rfl

/-- `process_switch` -/
theorem Scheduled.focusOn (h : Scheduled owned rest K₀ K obj dir table live) (hs : K.LiveSlot s) (c : Nat) :
    Serves owned rest K₀ K (processSwitch K (K.processes s)) c obj obj dir table live live :=
  h.requeue (fun _ => rfl) (fun _ => rfl) h.chained (.inr ⟨s, hs, rfl⟩) fun _ _ _ => rfl

/-- The registers of the task of slot `c` are saved. -/
theorem Scheduled.save (h : Scheduled owned rest K₀ K obj dir table live) (hc : K.LiveSlot c)
    (R : Registers) :
    Serves owned rest K₀ K (K.setTask (K.taskOf c) { K.queue.task (K.taskOf c) with registers := R }) c
      obj obj dir table live live := by
  have hfield : ∀ {α : Type} (g : Task → α), (∀ v R, g { v with registers := R } = g v) → ∀ a,
      g ((K.queue.set (K.taskOf c) { K.queue.task (K.taskOf c) with registers := R }).task a) =
        g (K.queue.task a) := fun g hg a => by
    rw [TaskQueue.set_task]
    split
    · rename_i he
      rw [he, hg]
    · rfl
  refine h.requeue (q := K.queue.set (K.taskOf c) { K.queue.task (K.taskOf c) with registers := R })
    (hfield Task.pageDirectory fun _ _ => rfl) (hfield Task.process fun _ _ => rfl)
    (h.chained.congr rfl rfl rfl fun a _ => hfield Task.next (fun _ _ => rfl) a) (.inl rfl)
    fun s hs hne => ?_
  rw [TaskQueue.set_task, if_neg fun he => hne (h.taskOf_inj hs hc he)]
  rfl

/-! ## Loads -/

/-- A program has been loaded into slot `t`: its task comes last. -/
theorem Scheduled.loaded (h : Scheduled owned rest K₀ K obj dir table live) (ht : t < maxProcesses)
    (hfree : ¬ K.LiveSlot t) {p : Nat} (hp : p ≠ 0) (hentered : Entered K K' p t)
    (hlinked : ∃ v : Task, FreshTask v p ∧ K'.queue =
      taskLink (K.queue.set (K'.processAt p).task v) (K'.processAt p).task)
    (hstep : StepOn owned rest K₀ K K' t obj table obj' dir' table') (c : Nat) :
    Serves owned rest K₀ K K' c obj obj' dir' table' live (live ++ [(K'.processAt p).task]) ∧
      K'.LiveSlot t ∧ K'.processes t = p ∧ (live ≠ [] → K'.queue.current = K.queue.current) := by
  have hslot : K'.processes t = p := by rw [hentered.processes, Function.update_self]
  have hlive : K'.LiveSlot t := ⟨ht, by rwa [hslot]⟩
  have hnew : (K'.processAt p).task = K'.taskOf t := by
    unfold Kernel.taskOf
    rw [hslot]
  have hkept : ∀ s, s ≠ t → Kept K K' s (obj s) := hstep.kept
  have hdistinct : ∀ s, K.LiveSlot s → s ≠ t := fun s hs he => hfree (he ▸ hs)
  have hother : ∀ s, s ≠ t → (K'.LiveSlot s ↔ K.LiveSlot s) := fun s hne => by
    unfold Kernel.LiveSlot
    rw [(hkept s hne).slot]
  have htask : ∀ s, K.LiveSlot s → K'.taskOf s = K.taskOf s := fun s hs => by
    have hne := hdistinct s hs
    have hat := (h.holdings s hs.1 hs.2).processAt (h.scope.part s) (hkept s hne).sameOwn
    unfold Kernel.taskOf
    rw [(hkept s hne).slot, hat]
  -- the new task is no other process's
  have hdiffer : ∀ s, K.LiveSlot s → K.taskOf s ≠ (K'.processAt p).task := fun s hs he => by
    refine hdistinct s hs (hstep.confined.taskOf_inj ((hother s (hdistinct s hs)).2 hs) hlive ?_)
    rw [htask s hs, he, hnew]
  have hfresh : (K'.processAt p).task ∉ live := fun hm => by
    obtain ⟨s, hs, he⟩ := (h.tasks _).1 hm
    exact hdiffer s hs he
  have hne0 : (K'.processAt p).task ≠ 0 := by
    obtain ⟨b, n, -, hat⟩ := (hstep.confined.holdings t ht hlive.2).task
    rw [hslot] at hat
    rw [hat]
    exact blockAddr_ne_zero b
  obtain ⟨v, hv, hqueue⟩ := hlinked
  have hfield : ∀ {α : Type} (g : Task → α), (∀ v a, g { v with next := a } = g v) →
      (∀ v a, g { v with prev := a } = g v) → ∀ a, g (K'.queue.task a) =
        if a = (K'.processAt p).task then g v else g (K.queue.task a) := fun g hn hp' a => by
    rw [hqueue, taskLink_field g hn hp', TaskQueue.set_task]
    split
    · rfl
    · rfl
  refine ⟨⟨⟨hstep.confined, ?_, fun a => ?_, fun s hs => ?_, ?_⟩, fun _ h0 => ?_, fun s hs _ => ?_,
    fun s hs hnew' _ => ?_⟩, hlive, hslot, fun hne => ?_⟩
  · rw [hqueue]
    exact (h.chained.link hne0 hfresh hv.next).1
  · rw [List.mem_append, List.mem_singleton, h.tasks a]
    constructor
    · rintro (⟨s, hs, rfl⟩ | rfl)
      · exact ⟨s, (hother s (hdistinct s hs)).2 hs, htask s hs⟩
      · exact ⟨t, hlive, hnew.symm⟩
    · rintro ⟨s, hs, rfl⟩
      by_cases hst : s = t
      · exact .inr (by rw [hst, hnew])
      · have hs' := (hother s hst).1 hs
        exact .inl ⟨s, hs', (htask s hs').symm⟩
  · rw [hfield Task.process (fun _ _ => rfl) (fun _ _ => rfl)]
    by_cases hst : s = t
    · rw [hst, ← hnew, if_pos rfl, hv.process, hslot]
    · have hs' := (hother s hst).1 hs
      rw [htask s hs', if_neg (hdiffer s hs'), h.owner s hs', (hkept s hst).slot]
  · rw [hentered.current]
    refine h.focus.imp_right fun ⟨s, hs, he⟩ => ?_
    have hne := hdistinct s hs
    exact ⟨s, (hother s hne).2 hs, by rw [(hkept s hne).slot, he]⟩
  · exact ⟨by simp, by rwa [hentered.current]⟩
  · have hne := hdistinct s hs
    refine ⟨hstep.sameObj s hne, .of_kept (hkept s hne) ?_⟩
    rw [hfield Task.registers (fun _ _ => rfl) (fun _ _ => rfl), if_neg (hdiffer s hs)]
    rfl
  · obtain rfl : s = t := by
      by_contra hst
      exact hnew' ((hother s hst).1 hs)
    obtain ⟨ip, hip⟩ := hv.registers
    unfold Kernel.saved
    rw [hfield Task.registers (fun _ _ => rfl) (fun _ _ => rfl), ← hnew, if_pos rfl, hip]
    exact ⟨rfl, rfl⟩
  · rw [hqueue, (h.chained.link hne0 hfresh hv.next).2, if_neg hne]

/-- A load that fails leaves the list as it was. -/
theorem Scheduled.notLoaded (h : Scheduled owned rest K₀ K obj dir table live) (hne : live ≠ [])
    (hfree : ¬ K.LiveSlot t) (hg : GivenUp owned (Others owned K (obj t)) K K K')
    (hstep : StepOn owned rest K₀ K K' t obj table obj dir table) (c : Nat) :
    Serves owned rest K₀ K K' c obj obj dir table live live ∧ K'.queue.current = K.queue.current := by
  have hdistinct : ∀ s, K.LiveSlot s → s ≠ t := fun s hs he => hfree (he ▸ hs)
  have htasks : SameTasks K.queue K'.queue live := by
    refine hg.tasks live ⟨h.chained.walk, h.chained.tail hne, h.chained.current hne, fun a ha => ?_⟩
    obtain ⟨s, hs, rfl⟩ := (h.tasks a).1 ha
    obtain ⟨b, n, hb, hat⟩ := (h.holdings s hs.1 hs.2).task
    exact ⟨b, hat, h.scope.others (hdistinct s hs) ((h.scope.part s).first hb)⟩
  have hslots : ∀ s, K'.LiveSlot s ↔ K.LiveSlot s := fun s => by
    unfold Kernel.LiveSlot
    rw [hg.processes]
  have hkept : ∀ s, K.LiveSlot s → Kept K K' s (obj s) := fun s hs =>
    hstep.kept s (hdistinct s hs)
  have htask : ∀ s, K.LiveSlot s → K'.taskOf s = K.taskOf s := fun s hs => by
    have hat := (h.holdings s hs.1 hs.2).processAt (h.scope.part s) (hkept s hs).sameOwn
    unfold Kernel.taskOf
    rw [hg.processes, hat]
  have hsame : ∀ s, K.LiveSlot s → K'.queue.task (K.taskOf s) = K.queue.task (K.taskOf s) := fun s hs =>
    htasks.task _ (h.taskOf_mem hs)
  refine ⟨⟨⟨hstep.confined, ?_, fun a => ?_, fun s hs => ?_, ?_⟩, fun _ h0 => ?_, fun s hs _ => ?_,
    fun s hs hno _ => absurd ((hslots s).1 hs) hno⟩, htasks.current⟩
  · exact h.chained.congr htasks.head htasks.tail htasks.current fun a ha => by rw [htasks.task a ha]
  · rw [h.tasks a]
    constructor
    · rintro ⟨s, hs, rfl⟩
      exact ⟨s, (hslots s).2 hs, htask s hs⟩
    · rintro ⟨s, hs, rfl⟩
      exact ⟨s, (hslots s).1 hs, (htask s ((hslots s).1 hs)).symm⟩
  · have hs' := (hslots s).1 hs
    rw [htask s hs', hsame s hs', hg.processes]
    exact h.owner s hs'
  · rw [hg.current]
    refine h.focus.imp_right fun ⟨s, hs, he⟩ => ⟨s, (hslots s).2 hs, by rw [hg.processes, he]⟩
  · exact ⟨hne, by rwa [hg.current]⟩
  · exact ⟨rfl, .of_kept (hkept s hs) (by rw [hsame s hs]; rfl)⟩

/-- `process_load_switch`, which may only fail where there are tasks. -/
theorem Scheduled.loadSwitch (hF : F.Sound owned) (hR : F.Regular)
    (h : Scheduled owned rest K₀ K obj dir table live) {filename : List UInt8} {out stale : Nat}
    (hfine : (UserStep.call (.loadSwitch filename out stale)).Fine F K)
    (hne : (processLoadSwitch F K filename out stale).1 < 0 → live ≠ []) :
    ∃ res p K', processLoadSwitch F K filename out stale = (res, p, K') ∧ ∃ obj' dir' table' live',
      (∀ c, Serves owned rest K₀ K K' c obj obj' dir' table' live live') ∧
      (0 ≤ res → ∃ t, ¬ K.LiveSlot t ∧ K'.LiveSlot t ∧ K'.processes t = p) ∧
      (live ≠ [] → K'.queue.current = K.queue.current) ∧ (res = 0 → K'.currentProcess = p) := by
  obtain ⟨-, hs, hin⟩ := hfine
  obtain ⟨res, p, K₁, he, t, hfree, hcases⟩ := h.load_cases hF hR hs hin
  have hload : processLoadSwitch F K filename out stale =
      if res = 0 then (res, p, processSwitch K₁ p) else (res, p, K₁) := by
    unfold processLoadSwitch
    rw [he]
  rw [hload]
  rcases hcases with ⟨hres, hp, ht, hentered, hlinked, obj', dir', table', hstep⟩ | ⟨hneg, hgiven, hstep⟩
  · have hloaded := fun c => (h.loaded ht hfree hp hentered hlinked hstep c).1
    obtain ⟨-, hlive, hslot, hcur⟩ := h.loaded ht hfree hp hentered hlinked hstep 0
    split
    · have hfocus := fun c => (hloaded c).scheduled.focusOn hlive c
      rw [hslot] at hfocus
      exact ⟨_, _, _, rfl, obj', dir', table', _, fun c => (hloaded c).trans h (hfocus c),
        fun _ => ⟨t, hfree, hlive, hslot⟩, hcur, fun _ => rfl⟩
    · rename_i hne0
      exact ⟨_, _, _, rfl, obj', dir', table', _, hloaded, fun _ => ⟨t, hfree, hlive, hslot⟩, hcur,
        fun h0 => absurd h0 hne0⟩
  · rw [hload, if_neg (by omega)] at hne
    rw [if_neg (by omega)]
    have hnot := fun c => h.notLoaded (hne hneg) hfree hgiven hstep c
    exact ⟨_, _, _, rfl, obj, dir, table, live, fun c => (hnot c).1, fun hres => absurd hres (by omega),
      fun _ => (hnot 0).2, fun h0 => absurd hneg (by omega)⟩

/-! ## The end of a process -/

theorem processTerminate_queue {process : Nat} (he : processTerminate K process = some K')
    (htask : (K.processAt process).task ≠ 0) :
    K'.queue = taskListRemove K.queue (K.processAt process).task := by
  unfold processTerminate at he
  obtain ⟨K₁, hunlink, rfl⟩ := Option.map_eq_some_iff.1 he
  have hsame : K₁.queue = K.queue ∧ K₁.processAt = K.processAt := by
    unfold processUnlink processSwitchToAny at hunlink
    dsimp only at hunlink
    split at hunlink
    · split at hunlink
      · cases hunlink
        exact ⟨rfl, rfl⟩
      · cases hunlink
    · cases hunlink
      exact ⟨rfl, rfl⟩
  have hprocess := congrFun hsame.2 process
  rw [processFreeProcess_queue K₁ process (by rwa [hprocess]), hsame.1, hprocess]

/-- The process in slot `s` is ended, and its task is taken out of the list. -/
theorem Scheduled.terminate (h : Scheduled owned rest K₀ K obj dir table live) (hs : K.LiveSlot s)
    (hp : PrevIn K.queue live (K.taskOf s)) (he : processTerminate K (K.processes s) = some K') :
    ¬ K'.LiveSlot s ∧ ∃ obj' dir' table',
      Serves owned rest K₀ K K' s obj obj' dir' table' live (live.erase (K.taskOf s)) := by
  obtain ⟨hprocesses, hcurrent, obj', dir', table', hstep⟩ := h.terminate_cases hs he
  have hqueue : K'.queue = taskListRemove K.queue (K.taskOf s) :=
    processTerminate_queue he (h.chained.walk.ne_null (h.taskOf_mem hs))
  have hgone : ¬ K'.LiveSlot s := fun hlive => hlive.2 (by rw [hprocesses, Function.update_self])
  have hkept : ∀ s', s' ≠ s → Kept K K' s' (obj s') := hstep.kept
  have hother : ∀ s', s' ≠ s → (K'.LiveSlot s' ↔ K.LiveSlot s') := fun s' hne => by
    unfold Kernel.LiveSlot
    rw [(hkept s' hne).slot]
  have hdistinct : ∀ s', K'.LiveSlot s' → s' ≠ s := fun s' hs' he => hgone (he ▸ hs')
  have htask : ∀ s', K.LiveSlot s' → s' ≠ s → K'.taskOf s' = K.taskOf s' := fun s' hs' hne => by
    have hat := (h.holdings s' hs'.1 hs'.2).processAt (h.scope.part s') (hkept s' hne).sameOwn
    unfold Kernel.taskOf
    rw [(hkept s' hne).slot, hat]
  have hfield : ∀ {α : Type} (g : Task → α), (∀ v a, g { v with next := a } = g v) → ∀ a,
      g (K'.queue.task a) = g (K.queue.task a) := fun g hg a => by
    rw [hqueue, taskListRemove_field g hg]
  have hnodup := h.chained.walk.nodup
  have htasks : ∀ a, a ∈ live.erase (K.taskOf s) ↔ ∃ s', K'.LiveSlot s' ∧ K'.taskOf s' = a := fun a => by
    rw [hnodup.mem_erase_iff, h.tasks a]
    constructor
    · rintro ⟨hne, s', hs', rfl⟩
      have hdiffer : s' ≠ s := fun he => hne (by rw [he])
      exact ⟨s', (hother s' hdiffer).2 hs', htask s' hs' hdiffer⟩
    · rintro ⟨s', hs', rfl⟩
      have hdiffer := hdistinct s' hs'
      have hlive := (hother s' hdiffer).1 hs'
      rw [htask s' hlive hdiffer]
      exact ⟨fun he => hdiffer (h.taskOf_inj hlive hs he), s', hlive, rfl⟩
  have hfocus : K'.currentProcess = 0 ∨ ∃ s', K'.LiveSlot s' ∧ K'.processes s' = K'.currentProcess := by
    rcases hcurrent with ⟨hne, hsame⟩ | ⟨-, s', hlt, hat, hne⟩
    · rw [hsame]
      refine h.focus.imp_right fun ⟨s', hs', hat⟩ => ?_
      have hdiffer : s' ≠ s := fun he => hne (by rw [← hat, he])
      exact ⟨s', (hother s' hdiffer).2 hs', by rw [(hkept s' hdiffer).slot, hat]⟩
    · exact .inr ⟨s', ⟨hlt, by rwa [hat]⟩, hat⟩
  have hremoved := h.chained.remove hp
  rw [← hqueue] at hremoved
  refine ⟨hgone, obj', dir', table', ⟨hstep.confined, hremoved, htasks, fun s' hs' => ?_, hfocus⟩,
    fun _ h0 => ?_, fun s' hs' hne => ⟨hstep.sameObj s' hne, .of_kept (hkept s' hne) ?_⟩,
    fun s' hs' hno hne => absurd ((hother s' hne).1 hs') hno⟩
  · have hdiffer := hdistinct s' hs'
    have hlive := (hother s' hdiffer).1 hs'
    rw [hfield Task.process (fun _ _ => rfl), htask s' hlive hdiffer, (hkept s' hdiffer).slot]
    exact h.owner s' hlive
  · -- the process that has the keyboard is another one, or becomes one
    have h0' : K'.currentProcess ≠ 0 := by
      rcases hcurrent with ⟨-, hsame⟩ | ⟨-, -, -, -, hne⟩
      · rwa [hsame]
      · exact hne
    obtain ⟨s', hs', -⟩ := hfocus.resolve_left h0'
    exact ⟨List.ne_nil_of_mem ((htasks _).2 ⟨s', hs', rfl⟩), h0'⟩
  · exact hfield Task.registers (fun _ _ => rfl) _

/-- `task_next`, where there is a task -/
theorem Scheduled.next (h : Scheduled owned rest K₀ K obj dir table live) (hne : live ≠ []) (c : Nat) :
    ∃ t ∈ live, taskNext K = some (taskSwitch K t) ∧
      Serves owned rest K₀ K (taskSwitch K t) c obj obj dir table live live := by
  have hmem := h.chained.getNext hne
  refine ⟨_, hmem, ?_, h.switch hmem c⟩
  unfold taskNext
  dsimp only
  rw [if_neg (h.chained.walk.ne_null hmem)]

/-- The `prev` link of the current task is right: it leads to the task before it, or is null where there is
none. -/
def Kernel.Unlinkable (K : Kernel σ) : Prop :=
  (K.queue.task K.queue.current).prev = 0 ∧ K.queue.head = K.queue.current ∨
    (∃ s, K.LiveSlot s ∧ K.taskOf s = (K.queue.task K.queue.current).prev) ∧
      (K.queue.task (K.queue.task K.queue.current).prev).next = K.queue.current

/-- The current process is ended, by itself or for an exception, and the next task is current. -/
theorem Scheduled.exit (h : Scheduled owned rest K₀ K obj dir table live) (hne : live ≠ [])
    (h0 : K.currentProcess ≠ 0) (hs : K.LiveSlot s) (hat : K.taskOf s = K.queue.current)
    (hlink : K.Unlinkable) (he : idtHandleException K = some K') :
    ¬ K'.LiveSlot s ∧ ∃ obj' dir' table' live',
      Serves owned rest K₀ K K' s obj obj' dir' table' live live' := by
  have howner : (K.queue.task K.queue.current).process = K.processes s := by rw [← hat, h.owner s hs]
  have hprev : PrevIn K.queue live (K.taskOf s) := by
    rw [hat]
    refine h.chained.prevIn (h.chained.current hne) (hlink.imp_right fun ⟨hlive, hnext⟩ => ⟨?_, hnext⟩)
    exact (h.tasks _).2 hlive
  unfold idtHandleException at he
  rw [howner] at he
  cases hterm : processTerminate K (K.processes s) with
  | none =>
    rw [hterm] at he
    cases he
  | some K₁ =>
    rw [hterm] at he
    dsimp only at he
    obtain ⟨hgone, obj', dir', table', h₁⟩ := h.terminate hs hprev hterm
    obtain ⟨t, ht, hnext, h₂⟩ := h₁.scheduled.next (h₁.alive hne h0).1 s
    obtain rfl : taskSwitch K₁ t = K' := Option.some.inj (hnext.symm.trans he)
    exact ⟨hgone, obj', dir', table', _, h₁.trans h h₂⟩

end

end Pandora
