import Pandora.Process.Task

/-!
# Processes (`task/process.c`)

The functions take the address of a `struct process`. A panic stops the machine: the functions that
can run into one return an `Option`, `none` for the panic. `process_inject_arguments` walks a list
in memory that the caller built: `none` is a walk that does not end.

In `process_load_for_slot` the variable `_process` is uninitialised until the slot has been found
free; `stale` is the value it has then.
-/

namespace Pandora

open ByteMem

/-- `EISTKN` of `status.h` -/
def eistkn : Int := 8

variable {σ : Type}

/-! ## Memory of a process -/

def processFindFreeAllocationIndex (process : Process) : Int :=
  match (List.range maxProgramAllocations).find? fun i => (process.allocations i).ptr = 0 with
  | some i => i
  | none => -enomem

/-- The index of the allocation instead of its address. -/
def processGetAllocationByAddr (process : Process) (addr : Nat) : Option Nat :=
  (List.range maxProgramAllocations).find? fun i => (process.allocations i).ptr = addr

/-- `process->allocations[index] = allocation` -/
def Process.setAllocation (process : Process) (index : Nat) (allocation : ProcessAllocation) :
    Process :=
  { process with allocations := Function.update process.allocations index allocation }

def processAllocationUnjoin (process : Process) (ptr : Nat) : Process :=
  { process with
    allocations := fun i =>
      if i < maxProgramAllocations ∧ (process.allocations i).ptr = ptr then {}
      else process.allocations i }

/-- `paging_map_to(process->task->page_directory, …)` -/
def Kernel.mapTo (K : Kernel σ) (process virt phys physEnd flags : Nat) : Int × Kernel σ :=
  let task := (K.processAt process).task
  let K := K.follow task
  let pageDirectory := (K.queue.task task).pageDirectory
  let K := K.follow pageDirectory
  let (res, m) := pagingMapTo K.mem pageDirectory virt phys physEnd flags
  (res, { K with kmem := { K.kmem with mem := m } })

/-- `PAGING_IS_WRITEABLE | PAGING_IS_PRESENT | PAGING_ACCESS_FROM_ALL` -/
def pagingUserWriteable : Nat := pagingIsWriteable ||| pagingIsPresent ||| pagingAccessFromAll

def processMalloc (K : Kernel σ) (process size : Nat) : Nat × Kernel σ :=
  let (ptr, K) := K.kzalloc size
  if ptr = 0 then (0, K)
  else
    let index := processFindFreeAllocationIndex (K.processAt process)
    if index < 0 then (0, K.kfree ptr)
    else
      let (res, K) := K.mapTo process ptr ptr (pagingAlignAddress (Word.add ptr size))
        pagingUserWriteable
      if res < 0 then (0, K.kfree ptr)
      else
        (ptr, K.setProcess process ((K.processAt process).setAllocation index.toNat ⟨ptr, size⟩))

def processFree (K : Kernel σ) (process ptr : Nat) : Kernel σ :=
  match processGetAllocationByAddr (K.processAt process) ptr with
  | none => K
  | some index =>
    let allocation := (K.processAt process).allocations index
    let (res, K) := K.mapTo process allocation.ptr allocation.ptr
      (pagingAlignAddress (Word.add allocation.ptr allocation.size)) 0
    if res < 0 then K
    else
      let K := K.setProcess process (processAllocationUnjoin (K.processAt process) ptr)
      K.kfree ptr

/-! ## Termination -/

/-- The loop of `process_terminate_allocations`: `n = 1024 - i` allocations are left. -/
def processTerminateAllocations.loop (process : Nat) : (n i : Nat) → Kernel σ → Kernel σ
  | 0, _, K => K
  | n + 1, i, K =>
    let ptr := ((K.processAt process).allocations i).ptr
    let K := if ptr ≠ 0 then processFree K process ptr else K
    loop process n (i + 1) K

def processTerminateAllocations (K : Kernel σ) (process : Nat) : Kernel σ :=
  processTerminateAllocations.loop process maxProgramAllocations 0 K

def processFreeBinaryData (K : Kernel σ) (process : Nat) : Kernel σ :=
  if (K.processAt process).ptr ≠ 0 then K.kfree (K.processAt process).ptr else K

def processFreeElfData (K : Kernel σ) (process : Nat) : Kernel σ :=
  if (K.processAt process).ptr ≠ 0 then elfClose K (K.processAt process).ptr else K

def processFreeProgramData (K : Kernel σ) (process : Nat) : Kernel σ :=
  match (K.processAt process).filetype with
  | .binary => processFreeBinaryData K process
  | .elf => processFreeElfData K process

def processFreeProcess (K : Kernel σ) (process : Nat) : Kernel σ :=
  let K := K.follow process
  let K := processTerminateAllocations K process
  let K := processFreeProgramData K process
  let stack := (K.processAt process).stack
  let K := if stack ≠ 0 then
      (K.kfree stack).setProcess process { K.processAt process with stack := 0 }
    else K
  let task := (K.processAt process).task
  let K := if task ≠ 0 then
      (taskFree K task).setProcess process { K.processAt process with task := 0 }
    else K
  K.kfree process

def processGet (K : Kernel σ) (processId : Nat) : Nat :=
  if maxProcesses ≤ processId then 0 else K.processes processId

def processSwitch (K : Kernel σ) (process : Nat) : Kernel σ := { K with currentProcess := process }

def processSwitchToAny (K : Kernel σ) : Option (Kernel σ) :=
  match (List.range maxProcesses).find? fun i => K.processes i ≠ 0 with
  | some i => some (processSwitch K (K.processes i))
  | none => none

def processUnlink (K : Kernel σ) (process : Nat) : Option (Kernel σ) :=
  let K := { K with processes := Function.update K.processes (K.processAt process).id 0 }
  if K.currentProcess = process then processSwitchToAny K else some K

def processTerminate (K : Kernel σ) (process : Nat) : Option (Kernel σ) :=
  (processUnlink K process).map fun K => processFreeProcess K process

/-! ## Arguments -/

/-- `current->next` of a `struct command_argument`, behind its 512 characters -/
def argumentNext (m : Mem) (current : Nat) : Nat := read32 m (Word.add current 512)

/-- `process_count_command_arguments`; `none` where the list has no end within `fuel` arguments. -/
def processCountCommandArguments (m : Mem) : (fuel : Nat) → (current i : Nat) → Option Nat
  | 0, _, _ => none
  | fuel + 1, current, i =>
    if current = 0 then some i
    else processCountCommandArguments m fuel (argumentNext m current) (i + 1)

/-- The loop of `strncpy`: `n = count - 1 - i` characters are left. -/
def strncpy.loop (dest src : Nat) : (n i : Nat) → Mem → Mem
  | 0, i, m => Function.update m (Word.add dest i) 0
  | n + 1, i, m =>
    if m (Word.add src i) = 0 then Function.update m (Word.add dest i) 0
    else loop dest src n (i + 1) (Function.update m (Word.add dest i) (m (Word.add src i)))

def strncpy (m : Mem) (dest src count : Nat) : Mem := strncpy.loop dest src (count - 1) 0 m

/-- The loop of `process_inject_arguments`: the status, and `none` where it does not end within
`fuel` arguments. -/
def processInjectArguments.loop (process argv : Nat) :
    (fuel : Nat) → (current i : Nat) → Kernel σ → Option (Int × Kernel σ)
  | 0, _, _, _ => none
  | fuel + 1, current, i, K =>
    if current = 0 then some (allOk, K)
    else
      let (argumentStr, K) := processMalloc K process 512
      if argumentStr = 0 then some (-enomem, K)
      else
        let m := strncpy K.mem argumentStr current 512
        let m := write32 m (Word.add argv (4 * i)) argumentStr
        loop process argv fuel (argumentNext m current) (i + 1)
          { K with kmem := { K.kmem with mem := m } }

/-- More steps than there are addresses: a list that is longer has no end. -/
@[irreducible] def argumentFuel : Nat := 2 ^ 32 + 1

def processInjectArguments (K : Kernel σ) (process rootArgument : Nat) :
    Option (Int × Kernel σ) :=
  match processCountCommandArguments K.mem argumentFuel rootArgument 0 with
  | none => none
  | some argc =>
    if argc = 0 then some (-eio, K)
    else
      let (argv, K) := processMalloc K process (Word.mul 4 argc)
      if argv = 0 then some (-enomem, K)
      else
        match processInjectArguments.loop process argv argumentFuel rootArgument 0 K with
        | none => none
        | some (res, K) =>
          if res < 0 then some (res, K)
          else some (res, K.setProcess process
            { K.processAt process with arguments := ⟨argc, argv⟩ })

/-! ## Loading -/

/-- From the label `out` of `process_load_binary` on. -/
def processLoadBinary.out (F : FileLayer σ) (K : Kernel σ) (programDataPtr : Nat) (fd res : Int) :
    Int × Kernel σ :=
  let K := if res < 0 ∧ programDataPtr ≠ 0 then K.kfree programDataPtr else K
  (res, K.fclose F fd)

/-- `process_load_binary` once the file is open. -/
def processLoadBinary.opened (F : FileLayer σ) (K : Kernel σ) (process : Nat) (fd : Int) :
    Int × Kernel σ :=
  let (res, filesize) := K.fstat F fd
  if res ≠ allOk then processLoadBinary.out F K 0 fd res
  else
    let (programDataPtr, K) := K.kzalloc filesize
    if programDataPtr = 0 then processLoadBinary.out F K 0 fd (-enomem)
    else
      let (read, K) := K.fread F programDataPtr filesize 1 fd
      if read ≠ 1 then processLoadBinary.out F K programDataPtr fd (-eio)
      else
        processLoadBinary.out F (K.setProcess process
          { K.processAt process with
            filetype := .binary
            ptr := programDataPtr
            size := filesize }) programDataPtr fd allOk

def processLoadBinary (F : FileLayer σ) (K : Kernel σ) (filename : List UInt8) (process : Nat) :
    Int × Kernel σ :=
  let (fd, K) := K.fopen F filename
  if fd = 0 then processLoadBinary.out F K 0 0 (-eio) else processLoadBinary.opened F K process fd

def processLoadElf (F : FileLayer σ) (K : Kernel σ) (filename : List UInt8) (process : Nat) :
    Int × Kernel σ :=
  let (res, elfFile, K) := elfLoad F K filename
  if res < 0 then (res, K)
  else (res, K.setProcess process { K.processAt process with filetype := .elf, ptr := elfFile })

def processLoadData (F : FileLayer σ) (K : Kernel σ) (filename : List UInt8) (process : Nat) :
    Int × Kernel σ :=
  let (res, K) := processLoadElf F K filename process
  if res = -einformat then processLoadBinary F K filename process else (res, K)

def processMapBinary (K : Kernel σ) (process : Nat) : Int × Kernel σ :=
  let ptr := (K.processAt process).ptr
  let physEnd := pagingAlignAddress (Word.add ptr (K.processAt process).size)
  (allOk, (K.mapTo process programVirtualAddress ptr physEnd pagingUserWriteable).2)

/-- One round of `process_map_elf`. -/
def processMapElf.segment (K : Kernel σ) (process : Nat) (phdr : Elf32Phdr) : Int × Kernel σ :=
  let physAddress := elfPhdrPhysAddress (K.elfFileAt (K.processAt process).ptr) phdr
  let flags := pagingIsPresent ||| pagingAccessFromAll
  let flags := if phdr.pFlags &&& pfW ≠ 0 then flags ||| pagingIsWriteable else flags
  K.mapTo process (pagingAlignToLowerPage phdr.pVaddr) (pagingAlignToLowerPage physAddress)
    (pagingAlignAddress (Word.add physAddress phdr.pMemsz)) flags

/-- The loop of `process_map_elf`: at most `n` rounds are left, as `e_phnum` is a half word, which
is read again in every round; `phdrs` is read once. -/
def processMapElf.loop (process phdrs : Nat) : (n i : Nat) → (res : Int) → Kernel σ → Int × Kernel σ
  | 0, _, res, K => (res, K)
  | n + 1, i, res, K =>
    if i < ePhnum K.mem (K.elfFileAt (K.processAt process).ptr).elfMemory then
      let phdr := elf32Phdr K.mem (Word.add phdrs (32 * i))
      let (res, K) := processMapElf.segment K process phdr
      if res < 0 then (res, K) else loop process phdrs n (i + 1) res K
    else (res, K)

def processMapElf (K : Kernel σ) (process : Nat) : Int × Kernel σ :=
  let elfFile := (K.processAt process).ptr
  let K := K.follow elfFile
  let header := (K.elfFileAt elfFile).elfMemory
  let K := K.follow header
  processMapElf.loop process (elfPheader K.mem header) (2 ^ 16) 0 allOk K

def processMapMemory (K : Kernel σ) (process : Nat) : Int × Kernel σ :=
  let (res, K) := match (K.processAt process).filetype with
    | .elf => processMapElf K process
    | .binary => processMapBinary K process
  if res < 0 then (res, K)
  else
    let stack := (K.processAt process).stack
    let physEnd := pagingAlignAddress (Word.add stack userProgramStackSize)
    (res, (K.mapTo process programVirtualStackAddressEnd stack physEnd pagingUserWriteable).2)

/-- The label `out` of `process_load_for_slot` where `_process` is set: the status, `*process` and the
kernel. -/
def processLoadForSlot.out (K : Kernel σ) (out process : Nat) (res : Int) : Int × Nat × Kernel σ :=
  if res < 0 then (res, 0, processFreeProcess K process) else (res, out, K)

/-- `process_load_for_slot` from the task on. -/
def processLoadForSlot.task (K : Kernel σ) (out process processSlot : Nat) :
    Int × Nat × Kernel σ :=
  let K := K.setProcess process { K.processAt process with id := processSlot }
  let (task, K) := taskNew K process
  let K := K.setProcess process { K.processAt process with task := task }
  if Word.toInt task = 0 then
    processLoadForSlot.out (K.setProcess process { K.processAt process with task := 0 }) out process
      (Word.toInt task)
  else
    let (res, K) := processMapMemory K process
    if res < 0 then processLoadForSlot.out K out process res
    else (res, process, { K with processes := Function.update K.processes processSlot process })

/-- `process_load_for_slot` once the process is allocated. -/
def processLoadForSlot.process (F : FileLayer σ) (K : Kernel σ) (filename : List UInt8)
    (out process processSlot : Nat) : Int × Nat × Kernel σ :=
  let K := K.setProcess process {}
  let (res, K) := processLoadData F K filename process
  if res < 0 then processLoadForSlot.out K out process res
  else
    let (stack, K) := K.kzalloc userProgramStackSize
    let K := K.setProcess process { K.processAt process with stack := stack }
    if stack = 0 then processLoadForSlot.out K out process (-enomem)
    else processLoadForSlot.task K out process processSlot

/-- The status, `*process` and the kernel; `out` is what `*process` is before the call. -/
def processLoadForSlot (F : FileLayer σ) (K : Kernel σ) (filename : List UInt8)
    (out stale processSlot : Nat) : Int × Nat × Kernel σ :=
  if processGet K processSlot ≠ 0 then
    if stale = 0 then (-eistkn, out, K)
    else
      -- an uninitialised pointer is followed
      let K := { K with kmem := { K.kmem with fault := true } }
      processLoadForSlot.out K out stale (-eistkn)
  else
    let (process, K) := K.kzalloc sizeofProcess
    if process = 0 then (-enomem, out, K)
    else processLoadForSlot.process F K filename out process processSlot

def processGetFreeSlot (K : Kernel σ) : Int :=
  match (List.range maxProcesses).find? fun i => K.processes i = 0 with
  | some i => i
  | none => -eistkn

def processLoad (F : FileLayer σ) (K : Kernel σ) (filename : List UInt8) (out stale : Nat) :
    Int × Nat × Kernel σ :=
  let processSlot := processGetFreeSlot K
  if processSlot < 0 then (-eistkn, out, K)
  else processLoadForSlot F K filename out stale processSlot.toNat

def processLoadSwitch (F : FileLayer σ) (K : Kernel σ) (filename : List UInt8) (out stale : Nat) :
    Int × Nat × Kernel σ :=
  let (res, process, K) := processLoad F K filename out stale
  if res = 0 then (res, process, processSwitch K process) else (res, process, K)

end Pandora
