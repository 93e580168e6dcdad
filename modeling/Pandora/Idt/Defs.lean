import Pandora.Keyboard.Driver
import Pandora.Process.Exit
import Pandora.Process.Isolation
import Pandora.Process.Path
import Pandora.Task.Switch
import Pandora.Terminal.Screen

/-!
# Interrupts and system calls (`idt/idt.c`, `idt/idt.asm`, `isr80h`)

`TrapTables` has the gates of the interrupt table, the callbacks and the system calls, as function pointers
by name; `bootTables` is what `kernel_main` fills in. A trap goes through its gate to `interrupt_handler`
or `isr80h_handler`, which save the registers of the current task and call on. It ends in one of two
ways: the stub restores the registers of the interrupted program, with the answer of a system call in
`eax`, or `task_return` loads those of the current task. `Machine.step` is one step of a user program or
one trap.
-/

namespace Pandora

open ByteMem

variable {σ : Type}

/-! ## The tables -/

/-- Where a gate leads. -/
inductive Gate where
  | idtZero
  | isr80hWrapper
  | interrupt (n : Nat)
deriving DecidableEq, Repr

inductive InterruptCallback where
  | idtHandleException
  | idtClock
  | pso2KeyboardHandleInterrupt
deriving DecidableEq, Repr

inductive Isr80hCommand where
  | sum
  | print
  | getkey
  | putchar
  | malloc
  | free
  | processLoadStart
  | invokeSystemCommand
  | getProgramArguments
  | exit
deriving DecidableEq, Repr

/-- `PANDORA_MAX_ISR80H_COMMANDS` -/
def maxIsr80hCommands : Nat := 1024

structure TrapTables where
  gates : Nat → Option Gate := fun _ => none
  interruptCallbacks : Nat → Option InterruptCallback := fun _ => none
  isr80hCommands : Nat → Option Isr80hCommand := fun _ => none

def idtSet (T : TrapTables) (interruptNo : Nat) (address : Gate) : TrapTables :=
  { T with gates := Function.update T.gates interruptNo (some address) }

/-- The first loop of `idt_init`: `n` gates are left, from `i` on. -/
def idtInit.gates : (n i : Nat) → TrapTables → TrapTables
  | 0, _, T => T
  | n + 1, i, T => gates n (i + 1) (idtSet T i (.interrupt i))

/-- `tss.esp0`: the stack of the handlers is below. -/
def tssEsp0 : Nat := 0x600000

/-- Where the arrays of the handlers are on the kernel stack, and what an uninitialised pointer is. A name
may overrun `path` by the prefix. -/
structure Locals where
  buf : Nat
  filename : Nat
  path : Nat
  stale : Nat
  buf_below : buf + 1024 ≤ tssEsp0
  filename_below : filename + maxPath ≤ tssEsp0
  path_below : path + 3 + maxPath ≤ tssEsp0

def isr80hCommand0Sum (K : Kernel σ) : Nat :=
  let v2 := taskGetStackItem K K.queue.current 1
  let v1 := taskGetStackItem K K.queue.current 0
  Word.add v1 v2

/-- The status of the copy is not looked at. `none` is a page fault, or no NUL behind `buf`. -/
def isr80hCommand1Print (L : Locals) (K : Kernel σ) (t : Terminal) : Option (Kernel σ × Terminal) :=
  let userSpaceMsgBuffer := taskGetStackItem K K.queue.current 0
  match copyStringFromTask K K.queue.current userSpaceMsgBuffer L.buf 1024 with
  | none => none
  | some (_, K) =>
    (strlen K.mem argumentFuel L.buf).map fun len => (K, print t (stringPrefix K.mem len L.buf))

def isr80hCommand5Free (K : Kernel σ) : Kernel σ :=
  processFree K (K.queue.task K.queue.current).process (taskGetStackItem K K.queue.current 0)

/-- The path, where the name could be copied. `none` is a page fault, or no NUL. -/
def isr80hCommand6Path (L : Locals) (K : Kernel σ) : Option (Option (List UInt8) × Kernel σ) :=
  let filenameUsrPtr := taskGetStackItem K K.queue.current 0
  match copyStringFromTask K K.queue.current filenameUsrPtr L.filename maxPath with
  | none => none
  | some (res, K) =>
    if res < 0 then some (none, K)
    else
      match command6Path K.mem L.path L.filename with
      | none => none
      | some t => (strlen t.mem argumentFuel L.path).map fun len =>
          (some (stringPrefix t.mem len L.path), K.withMem t.mem)

def isr80hCommand6ProcessLoadStart (F : FileLayer σ) (L : Locals) (K : Kernel σ) :
    Option (SyscallEnd σ) :=
  match isr80hCommand6Path L K with
  | none => none
  | some (none, K) => some (.returned 0 K)
  | some (some path, K) =>
    let (res, process, K) := processLoadSwitch F K path 0 L.stale
    if res < 0 then some (.returned 0 K)
    else some (.entered (taskSwitch K (K.processAt process).task))

/-- The call of a command. -/
def Isr80hCommand.call (F : FileLayer σ) (L : Locals) (K : Kernel σ) (t : Terminal) :
    Isr80hCommand → Option (SyscallEnd σ × Terminal)
  | sum => some (.returned (isr80hCommand0Sum K) K, t)
  | print => (isr80hCommand1Print L K t).map fun (K, t) => (.returned 0 K, t)
  | getkey =>
    let (val, K) := isr80hCommand2Getkey K
    some (.returned val K, t)
  | putchar => some (.returned 0 K, isr80hCommand3Putchar t (taskGetStackItem K K.queue.current 0))
  | malloc =>
    let (ptr, K) := isr80hCommand4Malloc K (taskGetStackItem K K.queue.current 0)
    some (.returned ptr K, t)
  | free => some (.returned 0 (isr80hCommand5Free K), t)
  | processLoadStart => (isr80hCommand6ProcessLoadStart F L K).map fun e => (e, t)
  | invokeSystemCommand =>
    (isr80hCommand7InvokeSystemCommand F K (taskGetStackItem K K.queue.current 0) L.stale).map
      fun e => (e, t)
  | getProgramArguments => some (.returned 0 (isr80hCommand8GetProgramArguments K), t)
  | exit => (isr80hCommand9Exit K).map fun K => (.entered K, t)

def isr80hHandleCommand (F : FileLayer σ) (T : TrapTables) (L : Locals) (K : Kernel σ) (t : Terminal)
    (command : Int) : Option (SyscallEnd σ × Terminal) :=
  if command < 0 ∨ command ≥ maxIsr80hCommands then some (.returned 0 K, t)
  else
    match T.isr80hCommands command.toNat with
    | none => some (.returned 0 K, t)
    | some commandFunc => commandFunc.call F L K t

/-- `none` is the panic without a task. -/
def taskCurrentSaveState (K : Kernel σ) (frame : InterruptFrame) : Option (Kernel σ) :=
  if K.queue.current = 0 then none
  else
    some (K.setTask K.queue.current
      { K.queue.task K.queue.current with registers := frame.registers })

def isr80hHandler (F : FileLayer σ) (T : TrapTables) (L : Locals) (K : Kernel σ) (t : Terminal)
    (command : Int) (frame : InterruptFrame) : Option (SyscallEnd σ × Terminal) :=
  (taskCurrentSaveState K frame).bind fun K => isr80hHandleCommand F T L K t command

/-! ## Interrupts -/

/-- The call of a callback; it returns nothing. `past` and `scancode` are for the keyboard. -/
def InterruptCallback.call (past scancode : UInt8) (capslock : KeyboardCapsLockState) (K : Kernel σ) :
    InterruptCallback → Option (SyscallEnd σ × KeyboardCapsLockState)
  | idtHandleException => (Pandora.idtHandleException K).map fun K => (.entered K, capslock)
  | idtClock => (Pandora.idtClock K).map fun K => (.entered K, capslock)
  | pso2KeyboardHandleInterrupt =>
    let (capslock, K) := Pandora.pso2KeyboardHandleInterrupt past capslock K scancode
    some (.returned 0 K, capslock)

def interruptHandler (T : TrapTables) (past scancode : UInt8) (capslock : KeyboardCapsLockState) (K : Kernel σ)
    (interrupt : Nat) (frame : InterruptFrame) : Option (SyscallEnd σ × KeyboardCapsLockState) :=
  match T.interruptCallbacks interrupt with
  | none => some (.returned 0 K, capslock)
  | some callback =>
    (taskCurrentSaveState K frame).bind fun K => callback.call past scancode capslock K

/-! ## The machine -/

/-- The processor in user mode, and the kernel: `context` are the registers of the program that runs, and
`directory` is the page directory it runs on. -/
structure Machine (σ : Type) where
  kernel : Kernel σ
  terminal : Terminal
  capslock : KeyboardCapsLockState := .off
  context : Registers
  directory : Nat

/-- What the processor and `pushad` leave on the kernel stack. With some exceptions there is an error code
before the return address, which the stubs do not take off: then the fields from `ip` on are one too
early. -/
def Registers.frame (R : Registers) : (errorCode : Option Nat) → InterruptFrame
  | none => ⟨R.edi, R.esi, R.ebp, 0, R.ebx, R.edx, R.ecx, R.eax, R.ip, R.cs, R.flags, R.esp, R.ss⟩
  | some code => ⟨R.edi, R.esi, R.ebp, 0, R.ebx, R.edx, R.ecx, R.eax, code, R.ip, R.cs, R.flags, R.esp⟩

/-- What `task_return` loads. -/
def Registers.returned (R : Registers) : Registers := { R with flags := R.flags ||| 0x200 }

/-- What a program or the hardware does: the program goes on to other registers or stores a byte, or
there is a trap, on which the keyboard is at `scancode`. A page fault is a trap as well. -/
inductive MachineOp where
  | run (context : Registers)
  | store (virt : Nat) (v : UInt8)
  | trap (vector : Nat) (errorCode : Option Nat) (scancode : UInt8) (L : Locals)

/-- The kernel is left for the current task: the last `task_switch` has set its directory. -/
def Machine.leave (M : Machine σ) (K : Kernel σ) (context : Registers) : Machine σ :=
  { M with
    kernel := K
    context := context
    directory := read32 K.mem (K.queue.task K.queue.current).pageDirectory }

/-- The end of a handler: the stub goes on with `context value`, or `task_return` loads what is saved. -/
def Machine.finish (M : Machine σ) (context : Nat → Registers) : SyscallEnd σ → Machine σ
  | .returned value K => M.leave K (context value)
  | .entered K => M.leave K (K.queue.task K.queue.current).registers.returned

/-- `interrupt n` of `idt.asm`: `popad` takes the registers back from the frame. -/
def Machine.interrupt (T : TrapTables) (past scancode : UInt8) (M : Machine σ) (n : Nat)
    (errorCode : Option Nat) : Option (Machine σ) :=
  (interruptHandler T past scancode M.capslock M.kernel n (M.context.frame errorCode)).map
    fun (e, capslock) => { M with capslock := capslock }.finish (fun _ => M.context) e

/-- `isr80h_wrapper`: `eax` is the answer. -/
def Machine.isr80h (F : FileLayer σ) (T : TrapTables) (L : Locals) (M : Machine σ) : Option (Machine σ) :=
  (isr80hHandler F T L M.kernel M.terminal (Word.toInt M.context.eax) (M.context.frame none)).map
    fun (e, t) => { M with terminal := t }.finish (fun value => { M.context with eax := value }) e

/-- A byte is stored where the directory lets the program. -/
def Machine.store (M : Machine σ) (virt : Nat) (v : UInt8) : Machine σ :=
  let phys := pagingGetPhyiscalAddress M.kernel.mem M.directory virt
  if UserMay M.kernel.mem M.directory virt phys then
    { M with kernel := M.kernel.withMem (Function.update M.kernel.mem phys v) }
  else M

/-- `none` is a panic, a fault in the kernel, or a gate that does not lead back to the program: that of
`idt_zero`, which is left with `ret`. -/
def Machine.step (F : FileLayer σ) (T : TrapTables) (past : UInt8) (M : Machine σ) :
    MachineOp → Option (Machine σ)
  | .run context => some { M with context := context }
  | .store virt v => some (M.store virt v)
  | .trap vector errorCode scancode L =>
    match T.gates vector with
    | some (.interrupt n) => M.interrupt T past scancode n errorCode
    | some .isr80hWrapper => M.isr80h F T L
    | some .idtZero => none
    | none => none

end Pandora
