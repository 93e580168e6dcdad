import Pandora.Lib.Run
import Pandora.Lib.X86
import Pandora.Heap.Kheap
import Pandora.Task.Queue

/-!
# The context switch (`task/task.asm`, `task/task.c`, `idt/idt.asm`, `idt/idt.h`)

Here `struct registers` and `struct interrupt_frame` are bytes in memory: the processor and `pushad` lay
the frame on the kernel stack, `task_save_state` copies it to the task, and `task_return` reads it with
offsets of its own. The kernel stack ends below the heap, where the tasks are.
-/

namespace Pandora

open ByteMem X86

/-! ## Layouts -/

/-- `struct registers` at `a`. -/
def registersAt (m : Mem) (a : Nat) : Registers where
  edi := read32 m a
  esi := read32 m (a + 4)
  ebp := read32 m (a + 8)
  ebx := read32 m (a + 12)
  edx := read32 m (a + 16)
  ecx := read32 m (a + 20)
  eax := read32 m (a + 24)
  ip := read32 m (a + 28)
  cs := read32 m (a + 32)
  flags := read32 m (a + 36)
  esp := read32 m (a + 40)
  ss := read32 m (a + 44)

/-- `&task->registers` -/
def taskRegistersAddr (task : Nat) : Nat := task + 4

/-- `struct interrupt_frame` -/
structure InterruptFrame where
  edi : Nat
  esi : Nat
  ebp : Nat
  reserved : Nat
  ebx : Nat
  edx : Nat
  ecx : Nat
  eax : Nat
  ip : Nat
  cs : Nat
  flags : Nat
  esp : Nat
  ss : Nat
deriving DecidableEq, Repr

def interruptFrameAt (m : Mem) (a : Nat) : InterruptFrame where
  edi := read32 m a
  esi := read32 m (a + 4)
  ebp := read32 m (a + 8)
  reserved := read32 m (a + 12)
  ebx := read32 m (a + 16)
  edx := read32 m (a + 20)
  ecx := read32 m (a + 24)
  eax := read32 m (a + 28)
  ip := read32 m (a + 32)
  cs := read32 m (a + 36)
  flags := read32 m (a + 40)
  esp := read32 m (a + 44)
  ss := read32 m (a + 48)

/-- The registers of the interrupted program. -/
structure Context where
  edi : UInt32
  esi : UInt32
  ebp : UInt32
  ebx : UInt32
  edx : UInt32
  ecx : UInt32
  eax : UInt32
  ip : UInt32
  cs : UInt16
  flags : UInt32
  esp : UInt32
  ss : UInt16
deriving DecidableEq

/-- The processor pushes five words to the kernel stack at `esp0`, and `pushad` eight. -/
def Context.interrupt (c : Context) (esp0 : Nat) (m : Mem) : Mem :=
  pushAll m esp0 [c.ss.toNat, c.esp.toNat, c.flags.toNat, c.cs.toNat, c.ip.toNat,
    c.eax.toNat, c.ecx.toNat, c.edx.toNat, c.ebx.toNat, esp0 - 20, c.ebp.toNat, c.esi.toNat,
    c.edi.toNat]

/-! ## Saving -/

/-- The assignments of `task_save_state`, in its order. -/
def taskSaveState (m : Mem) (task frame : Nat) : Mem :=
  let registers := taskRegistersAddr task
  let m := write32 m (registers + 28) (interruptFrameAt m frame).ip
  let m := write32 m (registers + 32) (interruptFrameAt m frame).cs
  let m := write32 m (registers + 36) (interruptFrameAt m frame).flags
  let m := write32 m (registers + 40) (interruptFrameAt m frame).esp
  let m := write32 m (registers + 44) (interruptFrameAt m frame).ss
  let m := write32 m (registers + 24) (interruptFrameAt m frame).eax
  let m := write32 m (registers + 8) (interruptFrameAt m frame).ebp
  let m := write32 m (registers + 12) (interruptFrameAt m frame).ebx
  let m := write32 m (registers + 20) (interruptFrameAt m frame).ecx
  let m := write32 m registers (interruptFrameAt m frame).edi
  let m := write32 m (registers + 16) (interruptFrameAt m frame).edx
  write32 m (registers + 4) (interruptFrameAt m frame).esi

/-- What the task is to continue with. -/
def InterruptFrame.registers (frame : InterruptFrame) : Registers where
  edi := frame.edi
  esi := frame.esi
  ebp := frame.ebp
  ebx := frame.ebx
  edx := frame.edx
  ecx := frame.ecx
  eax := frame.eax
  ip := frame.ip
  cs := frame.cs
  flags := frame.flags
  esp := frame.esp
  ss := frame.ss

section

variable {m m' : Mem} {task frame a x : Nat}

/-- Only the registers of the task are written. -/
theorem taskSaveState_apply (h : x < taskRegistersAddr task ∨ taskRegistersAddr task + 48 ≤ x) :
    taskSaveState m task frame x = m x := by
  unfold taskSaveState
  simp (disch := omega) only [write32_apply]

theorem interruptFrameAt_write32 {v : Nat} (h : frame + 52 ≤ a) :
    interruptFrameAt (write32 m a v) frame = interruptFrameAt m frame := by
  unfold interruptFrameAt
  simp (disch := omega) only [read32_write32_of_disjoint]

/-- `task_save_state` of a frame below the task. -/
theorem registersAt_taskSaveState (h : frame + 52 ≤ task) :
    registersAt (taskSaveState m task frame) (taskRegistersAddr task) =
      (interruptFrameAt m frame).registers := by
  have hr : frame + 52 ≤ taskRegistersAddr task := by
    unfold taskRegistersAddr
    omega
  unfold taskSaveState
  generalize taskRegistersAddr task = r at hr
  dsimp only
  simp (disch := omega) only [interruptFrameAt_write32]
  unfold registersAt InterruptFrame.registers
  simp (disch := first | omega | exact read32_lt _ _) only [read32_write32_of_disjoint, read32_write32,
    interruptFrameAt]

theorem registersAt_congr (h : ∀ x, a ≤ x → x < a + 48 → m x = m' x) :
    registersAt m a = registersAt m' a := by
  have hread : ∀ k, k + 4 ≤ 48 → read32 m (a + k) = read32 m' (a + k) := fun k hk =>
    read32_congr fun i hi => h _ (by omega) (by omega)
  have h0 : read32 m a = read32 m' a := hread 0 (by decide)
  unfold registersAt
  rw [h0, hread 4 (by decide), hread 8 (by decide), hread 12 (by decide), hread 16 (by decide),
    hread 20 (by decide), hread 24 (by decide), hread 28 (by decide), hread 32 (by decide),
    hread 36 (by decide), hread 40 (by decide), hread 44 (by decide)]

/-- The frame is the interrupted program. -/
theorem interruptFrameAt_interrupt {c : Context} {esp0 : Nat} (h : 52 ≤ esp0) (h' : esp0 < 2 ^ 32) :
    interruptFrameAt (c.interrupt esp0 m) (esp0 - 52) =
      ⟨c.edi.toNat, c.esi.toNat, c.ebp.toNat, esp0 - 20, c.ebx.toNat, c.edx.toNat, c.ecx.toNat,
        c.eax.toNat, c.ip.toNat, c.cs.toNat, c.flags.toNat, c.esp.toNat, c.ss.toNat⟩ := by
  obtain ⟨vs, hvs⟩ : ∃ vs, [c.ss.toNat, c.esp.toNat, c.flags.toNat, c.cs.toNat, c.ip.toNat,
    c.eax.toNat, c.ecx.toNat, c.edx.toNat, c.ebx.toNat, esp0 - 20, c.ebp.toNat, c.esi.toNat,
    c.edi.toNat] = vs := ⟨_, rfl⟩
  have hword : ∀ (i v : Nat), vs[i]? = some v → v < 2 ^ 32 →
      read32 (pushAll m esp0 vs) (esp0 - 52 + 4 * (12 - i)) = v := by
    intro i v hi hv
    have hlen : vs.length = 13 := by rw [← hvs]; rfl
    have hlt := (List.getElem?_eq_some_iff.1 hi).1
    rw [← read32_pushAll m esp0 (by omega) hi hv,
      show esp0 - 52 + 4 * (12 - i) = esp0 - 4 * (i + 1) by omega]
  subst hvs
  unfold interruptFrameAt Context.interrupt
  have hss : c.ss.toNat < 2 ^ 32 := c.ss.toNat_lt.trans (by decide)
  have hcs : c.cs.toNat < 2 ^ 32 := c.cs.toNat_lt.trans (by decide)
  congr 1
  · exact hword 12 _ rfl c.edi.toNat_lt
  · exact hword 11 _ rfl c.esi.toNat_lt
  · exact hword 10 _ rfl c.ebp.toNat_lt
  · exact hword 9 _ rfl (show esp0 - 20 < 2 ^ 32 by omega)
  · exact hword 8 _ rfl c.ebx.toNat_lt
  · exact hword 7 _ rfl c.edx.toNat_lt
  · exact hword 6 _ rfl c.ecx.toNat_lt
  · exact hword 5 _ rfl c.eax.toNat_lt
  · exact hword 4 _ rfl c.ip.toNat_lt
  · exact hword 3 _ rfl hcs
  · exact hword 2 _ rfl c.flags.toNat_lt
  · exact hword 1 _ rfl c.esp.toNat_lt
  · exact hword 0 _ rfl hss

end

/-! ## `task.asm` -/

/-- The address of `restore_general_purpose_registers`, behind `task_return`. -/
def restoreLabel : Nat := 18

def taskReturn : List Instr := [
  .mov .ebp .esp,
  .load .ebx .ebp 4,
  .pushMem .ebx 44,
  .pushMem .ebx 40,
  .load .eax .ebx 36,
  .or .eax 0x200,
  .push .eax,
  .pushMem .ebx 32,
  .pushMem .ebx 28,
  .load16 .eax .ebx 44,
  .movSeg .ds .eax,
  .movSeg .es .eax,
  .movSeg .fs .eax,
  .movSeg .gs .eax,
  .pushMem .ebp 4,
  .call restoreLabel,
  .add .esp 4,
  .iretd]

def restoreGeneralPurposeRegisters : List Instr := [
  .push .ebp,
  .mov .ebp .esp,
  .load .ebx .ebp 8,
  .load .edi .ebx 0,
  .load .esi .ebx 4,
  .load .ebp .ebx 8,
  .load .edx .ebx 16,
  .load .ecx .ebx 20,
  .load .eax .ebx 24,
  .load .ebx .ebx 12,
  .add .esp 4,
  .ret]

def taskAsm : List Instr := taskReturn ++ restoreGeneralPurposeRegisters

/-- The seven general registers have the saved values. -/
structure Restored (s : Cpu) (R : Registers) : Prop where
  edi : s.reg .edi = R.edi
  esi : s.reg .esi = R.esi
  ebp : s.reg .ebp = R.ebp
  ebx : s.reg .ebx = R.ebx
  edx : s.reg .edx = R.edx
  ecx : s.reg .ecx = R.ecx
  eax : s.reg .eax = R.eax

section

variable {s : Cpu} {sp r : Nat} {R : Registers}

/-- The frame for `iretd` and the argument are pushed, and the segment registers are set. -/
theorem taskReturn_prepares (hesp : s.reg .esp = sp) (hsp : 24 ≤ sp)
    (harg : read32 s.mem (sp + 4) = r) (hr : sp + 8 ≤ r) (hr' : r + 48 < 2 ^ 32)
    (hR : registersAt s.mem r = R) :
    (execBlock s (taskReturn.take 15)).reg .esp = sp - 24 ∧
      (∀ g, (execBlock s (taskReturn.take 15)).seg g = R.ss % 2 ^ 16) ∧
      (execBlock s (taskReturn.take 15)).mem =
        pushAll s.mem sp [R.ss, R.esp, R.flags ||| 0x200, R.cs, R.ip, r] := by
  have hlow : ∀ x y, (x / 2 ^ 16 * 2 ^ 16 + y % 2 ^ 16) % 2 ^ 16 = y % 2 ^ 16 := by omega
  subst hR
  unfold taskReturn
  -- every word is read behind the words that have been pushed
  simp (disch := first | omega | decide) only [List.take, execBlock, List.foldl, exec, Cpu.setReg,
    Cpu.setSeg, Cpu.push, Cpu.word, Cpu.next, Function.update_self, Function.update_of_ne, hesp,
    Word.add_of_lt, Word.sub_of_le, harg, read32_write32_of_disjoint, Nat.sub_sub, Nat.reduceAdd,
    pushAll_cons, pushAll_nil, hlow]
  refine ⟨trivial, fun g => ?_, rfl⟩
  cases g <;> rfl

/-- `restore_general_purpose_registers` up to its `ret`: the base register of the loads is the last
one to be loaded. -/
theorem restoreGeneralPurposeRegisters_loads (hesp : s.reg .esp = sp) (hsp : 4 ≤ sp)
    (harg : read32 s.mem (sp + 4) = r) (hr : sp + 8 ≤ r) (hr' : r + 48 < 2 ^ 32)
    (hR : registersAt s.mem r = R) :
    Restored (execBlock s (restoreGeneralPurposeRegisters.take 11)) R ∧
      (execBlock s (restoreGeneralPurposeRegisters.take 11)).reg .esp = sp ∧
      (execBlock s (restoreGeneralPurposeRegisters.take 11)).seg = s.seg ∧
      (execBlock s (restoreGeneralPurposeRegisters.take 11)).mem =
        pushAll s.mem sp [s.reg .ebp] := by
  have hback : sp - 4 + 4 = sp := Nat.sub_add_cancel hsp
  have harg' : sp - 4 + 8 = sp + 4 := by omega
  subst hR
  unfold restoreGeneralPurposeRegisters
  simp (disch := first | omega | decide) only [List.take, execBlock, List.foldl, exec, Cpu.setReg,
    Cpu.push, Cpu.word, Cpu.next, Function.update_self, Function.update_of_ne, hesp, hback, harg',
    Word.add_of_lt, Word.sub_of_le, harg, read32_write32_of_disjoint, pushAll_cons, pushAll_nil,
    Nat.add_zero]
  exact ⟨⟨rfl, rfl, rfl, rfl, rfl, rfl, rfl⟩, trivial, trivial, trivial⟩

/-- The processor is at `iretd` with the saved registers, but for the interrupt flag: the general ones
are set, and the others are on the stack. -/
structure AtIretd (s : Cpu) (R : Registers) : Prop where
  instr : taskAsm[s.pc]? = some .iretd
  general : Restored s R
  ip : s.word .esp 0 = R.ip
  cs : s.word .esp 4 = R.cs
  flags : s.word .esp 8 = R.flags ||| 0x200
  esp : s.word .esp 12 = R.esp
  ss : s.word .esp 16 = R.ss
  seg : ∀ g, s.seg g = R.ss % 2 ^ 16

/-- `task_return(regs)`, called with any stack that ends below the structure. -/
theorem taskReturn_spec (hpc : s.pc = 0) (hesp : s.reg .esp = sp) (hsp : 32 ≤ sp)
    (harg : read32 s.mem (sp + 4) = r) (hr : sp + 8 ≤ r) (hr' : r + 48 < 2 ^ 32)
    (hR : registersAt s.mem r = R) :
    ∃ s', Executes taskAsm s s' ∧ AtIretd s' R := by
  obtain ⟨hesp₁, hseg₁, hmem₁⟩ := taskReturn_prepares hesp (by omega) harg hr hr' hR
  have hto₁ : Executes taskAsm s (execBlock s (taskReturn.take 15)) :=
    reaches_execBlock (by rw [hpc]; decide) (by decide)
  have hpc₁ : (execBlock s (taskReturn.take 15)).pc = 15 := by
    rw [execBlock_pc (by decide), hpc]
    rfl
  generalize execBlock s (taskReturn.take 15) = s₁ at *
  -- the call pushes the address of the instruction behind it
  have hto₂ : Executes taskAsm s₁ (exec s₁ (.call restoreLabel)) :=
    .step (by rw [hpc₁]; rfl) (by decide)
  have hpc₂ : (exec s₁ (.call restoreLabel)).pc = 18 := rfl
  have hesp₂ : (exec s₁ (.call restoreLabel)).reg .esp = sp - 28 := by
    rw [exec_call_esp (by omega) (by omega)]
    omega
  have hseg₂ : (exec s₁ (.call restoreLabel)).seg = s₁.seg := rfl
  have hmem₂ : (exec s₁ (.call restoreLabel)).mem =
      pushAll s.mem sp [R.ss, R.esp, R.flags ||| 0x200, R.cs, R.ip, r, 16] := by
    rw [exec_call_mem (by omega) (by omega), hesp₁, hmem₁, hpc₁]
    exact pushAll_append s.mem sp [R.ss, R.esp, R.flags ||| 0x200, R.cs, R.ip, r] [16]
  generalize exec s₁ (.call restoreLabel) = s₂ at *
  -- the loads
  have harg₂ : read32 s₂.mem (sp - 28 + 4) = r := by
    rw [hmem₂, show sp - 28 + 4 = sp - 4 * (5 + 1) by omega]
    exact read32_pushAll _ _ (show 4 * 7 ≤ sp by omega) rfl (by omega)
  have hR₂ : registersAt s₂.mem r = R := by
    refine (registersAt_congr fun x hx _ => ?_).trans hR
    rw [hmem₂]
    exact pushAll_apply (show 4 * 7 ≤ sp by omega) (by omega)
  obtain ⟨hgen₃, hesp₃, hseg₃, hmem₃⟩ :=
    restoreGeneralPurposeRegisters_loads hesp₂ (by omega) harg₂ (by omega) hr' hR₂
  have hto₃ : Executes taskAsm s₂ (execBlock s₂ (restoreGeneralPurposeRegisters.take 11)) :=
    reaches_execBlock (by rw [hpc₂]; decide) (by decide)
  have hpc₃ : (execBlock s₂ (restoreGeneralPurposeRegisters.take 11)).pc = 29 := by
    rw [execBlock_pc (by decide), hpc₂]
    rfl
  rw [hmem₂, show sp - 28 = sp - 4 * 7 by omega] at hmem₃
  have hmem₃ := hmem₃.trans (pushAll_append s.mem sp
    [R.ss, R.esp, R.flags ||| 0x200, R.cs, R.ip, r, 16] [s₂.reg .ebp])
  generalize execBlock s₂ (restoreGeneralPurposeRegisters.take 11) = s₃ at *
  obtain ⟨vs, hvs⟩ : ∃ vs, [R.ss, R.esp, R.flags ||| 0x200, R.cs, R.ip, r, 16] ++ [s₂.reg .ebp] = vs :=
    ⟨_, rfl⟩
  rw [hvs] at hmem₃
  have hstack : ∀ i v, vs[i]? = some v → v < 2 ^ 32 →
      read32 s₃.mem (sp - 4 * (i + 1)) = v := by
    intro i v hi hv
    rw [hmem₃]
    refine read32_pushAll _ _ ?_ hi hv
    rw [← hvs]
    exact hsp
  subst hvs
  -- back in `task_return`
  have hret : read32 s₃.mem (s₃.reg .esp) = 16 := by
    rw [hesp₃, show sp - 28 = sp - 4 * (6 + 1) by omega]
    exact hstack 6 16 rfl (by decide)
  have hto₄ : Executes taskAsm s₃ (exec s₃ .ret) := .step (by rw [hpc₃]; rfl) (by decide)
  have hpc₄ : (exec s₃ .ret).pc = 16 := hret
  have hesp₄ : (exec s₃ .ret).reg .esp = sp - 24 := by
    rw [exec_ret_esp (by omega), hesp₃]
    omega
  have hgen₄ : Restored (exec s₃ .ret) R := by
    obtain ⟨h1, h2, h3, h4, h5, h6, h7⟩ := hgen₃
    constructor <;> rw [exec_ret_reg (by decide)] <;> assumption
  have hmem₄ : (exec s₃ .ret).mem = s₃.mem := rfl
  have hseg₄ : (exec s₃ .ret).seg = s₃.seg := rfl
  generalize exec s₃ .ret = s₄ at *
  have hto₅ : Executes taskAsm s₄ (exec s₄ (.add .esp 4)) := .step (by rw [hpc₄]; rfl) (by decide)
  have hesp₅ : (exec s₄ (.add .esp 4)).reg .esp = sp - 20 := by
    rw [exec_add_self (by omega), hesp₄]
    omega
  have hword : ∀ i off v, off = 4 * (4 - i) → i ≤ 4 →
      ([R.ss, R.esp, R.flags ||| 0x200, R.cs, R.ip, r, 16] ++ [s₂.reg .ebp])[i]? = some v →
      v < 2 ^ 32 → (exec s₄ (.add .esp 4)).word .esp off = v := by
    intro i off v hoff hi hget hv
    unfold Cpu.word
    rw [hesp₅, Word.add_of_lt (by omega), show sp - 20 + off = sp - 4 * (i + 1) by omega]
    exact (congrArg (read32 · _) hmem₄).trans (hstack i v hget hv)
  have hflags : R.flags ||| 0x200 < 2 ^ 32 :=
    Nat.or_lt_two_pow (by rw [← hR]; exact read32_lt _ _) (by decide)
  refine ⟨exec s₄ (.add .esp 4),
    (((hto₁.trans hto₂).trans hto₃).trans hto₄).trans hto₅, ?_, ?_, ?_, ?_, ?_, ?_, ?_, fun g => ?_⟩
  · rw [exec_pc rfl, hpc₄]
    rfl
  · obtain ⟨h1, h2, h3, h4, h5, h6, h7⟩ := hgen₄
    constructor <;> rw [exec_add_reg (by decide)] <;> assumption
  · exact hword 4 0 _ rfl (by decide) rfl (by rw [← hR]; exact read32_lt _ _)
  · exact hword 3 4 _ rfl (by decide) rfl (by rw [← hR]; exact read32_lt _ _)
  · exact hword 2 8 _ rfl (by decide) rfl hflags
  · exact hword 1 12 _ rfl (by decide) rfl (by rw [← hR]; exact read32_lt _ _)
  · exact hword 0 16 _ rfl (by decide) rfl (by rw [← hR]; exact read32_lt _ _)
  · show s₄.seg g = _
    rw [hseg₄, hseg₃, hseg₂]
    exact hseg₁ g

end

/-! ## Any time later -/

/-- What the kernel does in between: it saves a frame to a task, or it writes a byte. -/
inductive SwitchEvent where
  | save (task frame : Nat)
  | store (a : Nat) (v : UInt8)
deriving DecidableEq, Repr

def SwitchEvent.step (m : Mem) : SwitchEvent → Mem
  | .save task frame => taskSaveState m task frame
  | .store a v => Function.update m a v

/-- No other save to the task in block `b`, and no write to its registers. -/
def SwitchEvent.spares (b : Nat) : SwitchEvent → Prop
  | .save task _ => ∃ b', b' ≠ b ∧ task = blockAddr b'
  | .store a _ => a < taskRegistersAddr (blockAddr b) ∨ taskRegistersAddr (blockAddr b) + 48 ≤ a

/-- A save to another task, or a write elsewhere, leaves the registers. -/
theorem registersAt_step {m : Mem} {b : Nat} {e : SwitchEvent} (h : e.spares b) :
    registersAt (e.step m) (taskRegistersAddr (blockAddr b)) =
      registersAt m (taskRegistersAddr (blockAddr b)) := by
  refine registersAt_congr fun x hx hx' => ?_
  cases e with
  | save task frame =>
    obtain ⟨b', hne, rfl⟩ := h
    refine taskSaveState_apply ?_
    unfold taskRegistersAddr blockAddr at *
    omega
  | store a v =>
    have ha : a < _ ∨ _ ≤ a := h
    exact Function.update_of_ne (by omega) _ _

theorem registersAt_later {m : Mem} {b : Nat} {es : List SwitchEvent}
    (h : ∀ e ∈ es, e.spares b) :
    registersAt (Run.exec SwitchEvent.step m es) (taskRegistersAddr (blockAddr b)) =
      registersAt m (taskRegistersAddr (blockAddr b)) :=
  Run.Steps.inv (I := fun m' => registersAt m' _ = registersAt m _)
    (fun _ _ hi he => (registersAt_step he).trans hi) rfl (Run.steps_of_forall h)

/-! ## The switch -/

/-- The processor is at `iretd` with the registers of the interrupted program, and the flags with the
interrupt flag set. -/
structure Resumes (s : Cpu) (c : Context) : Prop where
  instr : taskAsm[s.pc]? = some .iretd
  edi : s.reg .edi = c.edi.toNat
  esi : s.reg .esi = c.esi.toNat
  ebp : s.reg .ebp = c.ebp.toNat
  ebx : s.reg .ebx = c.ebx.toNat
  edx : s.reg .edx = c.edx.toNat
  ecx : s.reg .ecx = c.ecx.toNat
  eax : s.reg .eax = c.eax.toNat
  ip : s.word .esp 0 = c.ip.toNat
  cs : s.word .esp 4 = c.cs.toNat
  flags : s.word .esp 8 = c.flags.toNat ||| 0x200
  esp : s.word .esp 12 = c.esp.toNat
  ss : s.word .esp 16 = c.ss.toNat
  seg : ∀ g, s.seg g = c.ss.toNat

/-- **A context switch preserves every register.** The program `c` is interrupted with the kernel stack
at `esp0`, its frame is saved to the task in block `b`, and `task_return` is called with the registers of
that task, any time later. -/
theorem context_switch_preserves {c : Context} {m : Mem} {esp0 b : Nat} {es : List SwitchEvent}
    {s : Cpu} (hesp0 : 52 ≤ esp0 ∧ esp0 ≤ 0x01000000) (hb : b < 25600)
    (hes : ∀ e ∈ es, e.spares b)
    (hmem : s.mem = Run.exec SwitchEvent.step
      (taskSaveState (c.interrupt esp0 m) (blockAddr b) (esp0 - 52)) es)
    (hpc : s.pc = 0) (hesp : 32 ≤ s.reg .esp ∧ s.reg .esp + 8 ≤ 0x01000000)
    (harg : s.word .esp 4 = taskRegistersAddr (blockAddr b)) :
    ∃ s', Executes taskAsm s s' ∧ Resumes s' c := by
  have haddr : 0x01000000 ≤ blockAddr b ∧ blockAddr b + 4096 ≤ 0x01000000 + 4096 * 25600 := by
    unfold blockAddr
    omega
  have hR : registersAt s.mem (taskRegistersAddr (blockAddr b)) =
      (interruptFrameAt (c.interrupt esp0 m) (esp0 - 52)).registers := by
    rw [hmem, registersAt_later hes, registersAt_taskSaveState (by omega)]
  rw [interruptFrameAt_interrupt hesp0.1 (by omega)] at hR
  have harg' : read32 s.mem (s.reg .esp + 4) = taskRegistersAddr (blockAddr b) := by
    rw [← harg]
    exact congrArg (read32 s.mem) (Word.add_of_lt (by omega)).symm
  obtain ⟨s', hto, hat⟩ := taskReturn_spec hpc rfl hesp.1 harg'
    (show _ ≤ blockAddr b + 4 by omega) (show blockAddr b + 4 + 48 < 2 ^ 32 by omega) hR
  refine ⟨s', hto, hat.instr, hat.general.edi, hat.general.esi, hat.general.ebp, hat.general.ebx,
    hat.general.edx, hat.general.ecx, hat.general.eax, hat.ip, hat.cs, hat.flags, hat.esp, hat.ss,
    fun g => (hat.seg g).trans (Nat.mod_eq_of_lt c.ss.toNat_lt)⟩

/-- A program in user mode. -/
def userContext : Context where
  edi := 1
  esi := 2
  ebp := 3
  ebx := 4
  edx := 5
  ecx := 6
  eax := 7
  ip := 0x400123
  cs := 0x1B
  flags := 0x46
  esp := 0x3FEFF0
  ss := 0x23

/-- Another task is saved, and the address of the registers is pushed for `task_return`. -/
def switchEvents : List SwitchEvent :=
  [.save (blockAddr 1) 0x5FFFCC, .store 0x5FF004 4, .store 0x5FF005 0, .store 0x5FF006 0,
    .store 0x5FF007 1]

def switchCpu : Cpu where
  reg := fun r => if r = .esp then 0x5FF000 else 0
  seg := fun _ => 0x10
  pc := 0
  mem := Run.exec SwitchEvent.step
    (taskSaveState (userContext.interrupt 0x600000 fun _ => 0) (blockAddr 0) (0x600000 - 52)) switchEvents

theorem context_switch_preserves_user :
    ∃ s', Executes taskAsm switchCpu s' ∧ Resumes s' userContext := by
  have hspares : ∀ e ∈ switchEvents, e.spares 0 := by
    intro e he
    simp only [switchEvents, List.mem_cons, List.not_mem_nil, or_false] at he
    rcases he with rfl | rfl | rfl | rfl | rfl
    · exact ⟨1, by decide, rfl⟩
    all_goals exact Or.inl (by decide)
  have harg : switchCpu.word .esp 4 = taskRegistersAddr (blockAddr 0) := by
    have haddr : Word.add (switchCpu.reg .esp) 4 = 0x5FF004 := Word.add_of_lt (by decide)
    unfold Cpu.word
    rw [haddr]
    rfl
  exact context_switch_preserves (by decide) (by decide) hspares rfl rfl (by decide) harg

end Pandora
