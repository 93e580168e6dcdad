import Pandora.Keyboard.Driver
import Pandora.Process.Copied
import Pandora.Process.Exit
import Pandora.Process.Isolation

/-!
# Work on behalf of a task

What the handlers do to the kernel besides the calls on processes: they save registers and switch tasks, they
fill and empty key buffers, copy strings out of a task and write the arguments of a program for it. Each
keeps the programs confined (`Confined`), and works on one slot at most.
-/

namespace Pandora

open ByteMem

section

variable {σ : Type} {F : FileLayer σ} {owned : σ → Nat → Prop} {rest : Nat → Prop}
  {K₀ K K' : Kernel σ} {obj obj' : Nat → Role → Option (Nat × Nat)} {dir : Nat → Nat}
  {table : Nat → Nat → Nat} {s t : Nat}

theorem StepOn.trans {K'' : Kernel σ} {obj'' : Nat → Role → Option (Nat × Nat)} {dir' dir'' : Nat → Nat}
    {table' table'' : Nat → Nat → Nat} (h : StepOn owned rest K₀ K K' t obj table obj' dir' table')
    (h' : StepOn owned rest K₀ K' K'' t obj' table' obj'' dir'' table'') :
    StepOn owned rest K₀ K K'' t obj table obj'' dir'' table'' where
  confined := h'.confined
  sameObj := fun s hs => (h'.sameObj s hs).trans (h.sameObj s hs)
  sameTable := fun s hs => (h'.sameTable s hs).trans (h.sameTable s hs)
  kept := fun s hs => by
    have hkept := h'.kept s hs
    rw [h.sameObj s hs] at hkept
    exact (h.kept s hs).trans hkept

/-- The list of the tasks and the current process have changed. -/
theorem Confined.requeue (h : Confined owned rest K₀ K obj dir table) {q : TaskQueue} {c : Nat}
    (hq : ∀ a, (q.task a).pageDirectory = (K.queue.task a).pageDirectory) (t : Nat) :
    StepOn owned rest K₀ K { K with queue := q, currentProcess := c } t obj table obj dir table := by
  obtain ⟨K', hK'⟩ : ∃ K', { K with queue := q, currentProcess := c } = K' := ⟨_, rfl⟩
  rw [hK']
  refine h.same ?_ ?_ ?_ ?_ (fun b _ _ => ?_) t
  all_goals subst hK'
  · exact h.scope.tidy.kernel
  · rfl
  · rfl
  · rfl
  · exact ⟨.refl _ b, rfl, rfl, hq _⟩

/-- Memory outside the heap has changed. -/
theorem Confined.writeOutside (h : Confined owned rest K₀ K obj dir table) {m : Mem}
    (hm : ∀ x, 0x01000000 ≤ x → x < 0x07400000 → m x = K.mem x) (t : Nat) :
    StepOn owned rest K₀ K (K.withMem m) t obj table obj dir table := by
  obtain ⟨K', hK'⟩ : ∃ K', K.withMem m = K' := ⟨_, rfl⟩
  rw [hK']
  refine h.same ?_ ?_ ?_ ?_ (fun b hb _ => ?_) t
  all_goals subst hK'
  · exact h.scope.tidy.kernel
  · rfl
  · rfl
  · rfl
  · refine ⟨fun x hx hx' => hm x ?_ ?_, rfl, rfl, rfl⟩
    all_goals
      unfold blockAddr at hx hx'
      omega

/-- Fields of a process have changed that say nothing of what it holds. -/
theorem Confined.setFields (h : Confined owned rest K₀ K obj dir table) (hs : K.LiveSlot s)
    {v : Process} (hv : SameParts (K.processAt (K.processes s)) v)
    (hid : v.id = (K.processAt (K.processes s)).id) :
    StepOn owned rest K₀ K (K.setProcess (K.processes s) v) s obj table obj dir table := by
  have ho := h.holdings s hs.1 hs.2
  obtain ⟨b, n, hb, hp⟩ := ho.block
  have h' : Scope owned (Others owned K (obj s)) K (K.setProcess (K.processes s) v) (obj s) := by
    rw [hp]
    exact (h.scope.part s).setProcess hb v
  have hat : (K.setProcess (K.processes s) v).processAt (K.processes s) = v := Function.update_self _ _ _
  have hwork := h.work hs h' rfl (ho.setProcess hv) (by rw [hat, hid]; exact h.id s hs.1 hs.2)
    (h.writable s hs)
  rwa [Function.update_eq_self] at hwork

/-- A string is copied out of the task of slot `s`. Nothing that any process has changes. -/
theorem Confined.copyString (h : Confined owned rest K₀ K obj dir table) (hs : K.LiveSlot s)
    {virt phys c : Nat} {res : Int} (hc : c + 1 < 4096) (hphys : phys + (c + 1) ≤ 0x01000000)
    (he : copyStringFromTask K (K.processAt (K.processes s)).task virt phys (c + 1 : Nat) =
      some (res, K')) (t : Nat) :
    K' = { K with kmem := K'.kmem } ∧ StepOn owned rest K₀ K K' t obj table obj dir table := by
  have hkept := (h.scope.part s).copyStringFromTask (h.holdings s hs.1 hs.2) (by decide) rfl hc hphys he
  refine ⟨hkept.state, h.same hkept.kernel hkept.entries ?_ ?_ (fun b hb hf => ⟨hkept.kept b hb hf, ?_⟩) t⟩
  all_goals rw [hkept.state]
  exact ⟨rfl, rfl, rfl⟩

/-- The program may write where system call 8 is to write for it. -/
def Kernel.ArgumentsWritable (K : Kernel σ) : Prop :=
  ∀ i < 8, UserMay K.mem (K.directory K.poller)
    (Word.add (taskGetStackItem K K.queue.current 0) i) (Word.add (command8Arguments K) i)

/-- System call 8 writes to data of the process that calls. -/
theorem Confined.getArguments (h : Confined owned rest K₀ K obj dir table) (hs : K.LiveSlot s)
    (hpoller : K.poller = K.processes s) (hmay : K.ArgumentsWritable) :
    StepOn owned rest K₀ K (isr80hCommand8GetProgramArguments K) s obj table obj dir table := by
  have ho := h.holdings s hs.1 hs.2
  obtain ⟨a, ha⟩ : ∃ a, command8Arguments K = a := ⟨_, rfl⟩
  have hwrites := processGetArguments_writes K K.poller a
  have hcall : isr80hCommand8GetProgramArguments K =
      processGetArguments K K.poller a (Word.add a 4) := by
    rw [← ha]
    rfl
  obtain ⟨m, hm⟩ : ∃ m, (processGetArguments K K.poller a (Word.add a 4)).mem = m := ⟨_, rfl⟩
  have hstate : processGetArguments K K.poller a (Word.add a 4) = K.withMem m := by
    rw [← hm]
    rfl
  rw [hcall, hstate]
  obtain ⟨h', ho', hentries⟩ := (h.scope.part s).writeOwn ho (m := m) fun x hx hout => by
    rw [← hm]
    refine hwrites.others x hx fun i hi he => ?_
    -- the byte is data of the process
    have hframe := hmay i hi
    rw [hpoller, ha, ← he] at hframe
    obtain ⟨r, b, hb, hin, hdata⟩ := (h.frame hs (Word.add_lt _ _) hframe).chunk
    have hpaging : ¬ r.Paging := by
      rintro (hp | hp | ⟨_, hp⟩)
      all_goals
        rw [hp] at hdata
        simp at hdata
    have := hout r b hpaging hin
    unfold blockAddr at this
    omega
  have hwork := h.work hs h' rfl ho' (h.id s hs.1 hs.2)
    ((h.writable s hs).grown (.of_entries hentries))
  rwa [Function.update_eq_self] at hwork

/-! ## Key buffers -/

def Kernel.withKeyboard (K : Kernel σ) (process : Nat) (kb : KeyboardBuffer) : Kernel σ :=
  K.setProcess process { K.processAt process with keyboard := kb }

/-- A push changes the key buffer of the current process. -/
theorem keyboardPush_cases (K : Kernel σ) (c : UInt8) :
    keyboardPush K c = K ∨ (K.currentProcess ≠ 0 ∧ ∃ kb, keyboardPush K c =
      K.withKeyboard K.currentProcess kb) := by
  unfold keyboardPush
  dsimp only
  split
  · exact .inl rfl
  · rename_i hne
    exact .inr ⟨fun h0 => hne (.inl h0), _, rfl⟩

theorem keyboardPop_cases (K : Kernel σ) :
    (keyboardPop K).2 = K ∨ ∃ kb, (keyboardPop K).2 = K.withKeyboard K.poller kb := by
  unfold keyboardPop Kernel.poller
  dsimp only
  split
  · exact .inl rfl
  split
  · exact .inl rfl
  · exact .inr ⟨_, rfl⟩

/-- The interrupt pushes one character at most. -/
theorem handleInterrupt_cases (past : UInt8) (capslock : KeyboardCapsLockState) (K : Kernel σ)
    (scancode : UInt8) :
    (pso2KeyboardHandleInterrupt past capslock K scancode).2 = K ∨ (K.currentProcess ≠ 0 ∧
      ∃ kb, (pso2KeyboardHandleInterrupt past capslock K scancode).2 =
        K.withKeyboard K.currentProcess kb) := by
  rw [handleInterrupt_eq]
  dsimp only
  rcases struck_cases past (capslock.press scancode) scancode with he | ⟨c, -, he⟩
  · rw [he]
    exact .inl rfl
  · rw [he, List.foldl_cons, List.foldl_nil]
    exact keyboardPush_cases K c

/-! ## The tasks of the processes -/

/-- Only memory and processes have changed, and no process has changed its task. -/
structure Kernel.TasksKept (K K' : Kernel σ) : Prop where
  state : K' = { K with kmem := K'.kmem, processAt := K'.processAt }
  task : ∀ p, (K'.processAt p).task = (K.processAt p).task

theorem Kernel.TasksKept.refl (K : Kernel σ) : K.TasksKept K := ⟨rfl, fun _ => rfl⟩

theorem Kernel.TasksKept.trans {K'' : Kernel σ} (h : K.TasksKept K') (h' : K'.TasksKept K'') :
    K.TasksKept K'' where
  state := by
    rw [h'.state, h.state]
  task := fun p => (h'.task p).trans (h.task p)

theorem Kernel.TasksKept.setProcess (h : K.TasksKept K') {process : Nat} {v : Process}
    (hv : v.task = (K'.processAt process).task) : K.TasksKept (K'.setProcess process v) where
  state := by
    have := h.state
    unfold Kernel.setProcess
    rw [this]
  task := fun p => by
    rw [← h.task p]
    unfold Kernel.setProcess
    dsimp only
    by_cases hp : p = process
    · rw [hp, Function.update_self, hv]
    · rw [Function.update_of_ne hp]

theorem Kernel.tasksKept_mem (K : Kernel σ) (k : Kmem) : K.TasksKept { K with kmem := k } :=
  ⟨rfl, fun _ => rfl⟩

theorem tasksKept_processMalloc (K : Kernel σ) (process size : Nat) :
    K.TasksKept (processMalloc K process size).2 := by
  unfold processMalloc
  obtain ⟨⟨ptr, K₁⟩, hz⟩ : ∃ r, K.kzalloc size = r := ⟨_, rfl⟩
  have h₁ : K.TasksKept K₁ := by
    have hK₁ : K₁ = (K.kzalloc size).2 := by rw [hz]
    rw [hK₁]
    exact K.tasksKept_mem _
  rw [hz]
  dsimp only
  split
  · exact h₁
  split
  · exact h₁.trans (K₁.tasksKept_mem _)
  · obtain ⟨⟨res, K₂⟩, hmap⟩ : ∃ r, K₁.mapTo process ptr ptr (pagingAlignAddress (Word.add ptr size))
        pagingUserWriteable = r := ⟨_, rfl⟩
    have h₂ : K.TasksKept K₂ := by
      have hK₂ : K₂ = (K₁.mapTo process ptr ptr (pagingAlignAddress (Word.add ptr size))
        pagingUserWriteable).2 := by rw [hmap]
      rw [hK₂]
      exact h₁.trans (K₁.tasksKept_mem _)
    rw [hmap]
    dsimp only
    split
    · exact h₂.trans (K₂.tasksKept_mem _)
    · exact h₂.setProcess rfl

theorem tasksKept_processFree (K : Kernel σ) (process ptr : Nat) :
    K.TasksKept (processFree K process ptr) := by
  unfold processFree
  split
  · exact .refl K
  · rename_i index _
    dsimp only
    split
    · exact K.tasksKept_mem _
    · refine Kernel.TasksKept.trans (Kernel.TasksKept.setProcess (K.tasksKept_mem _) ?_)
        (Kernel.tasksKept_mem _ _)
      rfl

theorem tasksKept_injectLoop (process argv : Nat) : ∀ (fuel current i : Nat) (K K' : Kernel σ) (res : Int),
    processInjectArguments.loop process argv fuel current i K = some (res, K') → K.TasksKept K'
  | 0, _, _, _, _, _, he => by cases he
  | fuel + 1, current, i, K, K', res, he => by
    unfold processInjectArguments.loop at he
    split at he
    · cases he
      exact .refl K
    · have h₁ := tasksKept_processMalloc K process 512
      dsimp only at he
      split at he
      · cases he
        exact h₁
      · exact (h₁.trans (Kernel.tasksKept_mem _ _)).trans
          (tasksKept_injectLoop process argv fuel _ _ _ _ _ he)

theorem tasksKept_processInjectArguments {process root : Nat} {res : Int}
    (he : processInjectArguments K process root = some (res, K')) : K.TasksKept K' := by
  unfold processInjectArguments at he
  split at he
  · cases he
  · rename_i argc _
    split at he
    · cases he
      exact .refl K
    · have h₁ := tasksKept_processMalloc K process (Word.mul 4 argc)
      dsimp only at he
      split at he
      · cases he
        exact h₁
      · cases hloop : processInjectArguments.loop process (processMalloc K process (Word.mul 4 argc)).1
            argumentFuel root 0 (processMalloc K process (Word.mul 4 argc)).2 with
        | none =>
          rw [hloop] at he
          cases he
        | some r =>
          rw [hloop] at he
          dsimp only at he
          have h₂ := h₁.trans (tasksKept_injectLoop process _ _ _ _ _ _ r.1 hloop)
          split at he
          · cases he
            exact h₂
          · cases he
            exact h₂.setProcess rfl

end

end Pandora
