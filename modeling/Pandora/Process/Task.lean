import Pandora.Process.Elf

/-!
# Tasks of a process (`task/task.c`)

`task_new` answers an error with `ERROR(res)`, the pattern of a negative number as a pointer. Its
cleanup runs `task_free` also on a task that could not be allocated.
-/

namespace Pandora

open ByteMem

variable {σ : Type}

def userDataSegment : Nat := 0x23
def userCodeSegment : Nat := 0x1B

/-- `PANDORA_PROGRAM_VIRTUAL_STACK_ADDRESS_START` and `…_END` -/
def programVirtualStackAddressStart : Nat := 0x3FF000
def programVirtualStackAddressEnd : Nat := 0x3FB000

/-- `PANDORA_USER_PROGRAM_STACK_SIZE` -/
def userProgramStackSize : Nat := 16384

/-- The registers a task starts with; the others are zero. -/
def taskRegisters (ip : Nat) : Registers :=
  { ip := ip
    cs := userCodeSegment
    esp := programVirtualStackAddressStart
    ss := userDataSegment }

def taskInit (K : Kernel σ) (task process : Nat) : Int × Kernel σ :=
  let (pageDirectory, k) := pagingNew4gb K.kmem (pagingIsPresent ||| pagingAccessFromAll)
  let K := { K with kmem := k }
  if pageDirectory = 0 then (-eio, K.setTask task {})
  else
    let K := K.follow process
    let file := (K.processAt process).ptr
    match (K.processAt process).filetype with
    | .elf =>
      let K := K.follow file
      let header := (K.elfFileAt file).elfMemory
      let K := K.follow header
      (allOk, K.setTask task
        { pageDirectory := pageDirectory
          registers := taskRegisters (eEntry K.mem header)
          process := process })
    | .binary =>
      (allOk, K.setTask task
        { pageDirectory := pageDirectory
          registers := taskRegisters programVirtualAddress
          process := process })

/-- `task_list_remove` on the queue of the kernel. -/
def Kernel.taskListRemove (K : Kernel σ) (task : Nat) : Kernel σ :=
  { K with queue := Pandora.taskListRemove K.queue task }

def taskFree (K : Kernel σ) (task : Nat) : Kernel σ :=
  let K := K.follow task
  let K := { K with kmem := pagingFree4gb K.kmem (K.queue.task task).pageDirectory }
  let K := K.taskListRemove task
  K.kfree task

def taskNew (K : Kernel σ) (process : Nat) : Nat × Kernel σ :=
  let (task, K) := K.kzalloc sizeofTask
  let (res, K) := if task = 0 then (-enomem, K) else taskInit K task process
  if res < 0 then (Word.ofInt res, taskFree K task)
  else
    let K := if K.queue.head = 0 then K else K.follow K.queue.tail
    (task, { K with queue := taskLink K.queue task })

end Pandora
