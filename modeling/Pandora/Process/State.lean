import Pandora.Paging.Defs
import Pandora.Task.Queue

/-!
# The state of the kernel (`task/process.h`, `loader/formats/elf_loader.h`)

`Kernel` is what the process functions work on. The bytes and the heap are in `kmem`; the structures
(`struct process`, `struct elf_file`, and `struct task` in `queue`) are in stores of their own, by
address, so that a write to a structure changes no page table and no image. A freed structure keeps
its last contents. Fields that no function here reads (`filename`, `in_memory_size`) are left out.

The files are a parameter: `FileLayer` has `fopen` (for reading), `fstat`, `fread` and `fclose` as
functions on a state `σ` of their own and on the memory, in which they allocate as they like.
-/

namespace Pandora

open ByteMem

/-! ## Structures -/

inductive ProcessFileType where
  | elf
  | binary
deriving DecidableEq, Repr

structure ProcessAllocation where
  ptr : Nat := 0
  size : Nat := 0
deriving DecidableEq, Repr

structure ProcessArguments where
  argc : Nat := 0
  argv : Nat := 0
deriving DecidableEq, Repr

/-- `struct keyboard_buffer`; the counters are the patterns of `int`s. -/
structure KeyboardBuffer where
  buffer : Nat → UInt8 := fun _ => 0
  head : Nat := 0
  tail : Nat := 0

/-- `struct process`; `ptr` is the union of `ptr` and `elf_file`. The default is what `process_init`
leaves. -/
structure Process where
  id : Nat := 0
  task : Nat := 0
  allocations : Nat → ProcessAllocation := fun _ => {}
  filetype : ProcessFileType := .elf
  ptr : Nat := 0
  stack : Nat := 0
  size : Nat := 0
  keyboard : KeyboardBuffer := {}
  arguments : ProcessArguments := {}

/-- `struct elf_file` -/
structure ElfFile where
  elfMemory : Nat := 0
  virtualBaseAddress : Nat := 0
  virtualEndAddress : Nat := 0
  physicalBaseAddress : Nat := 0
  physicalEndAddress : Nat := 0
deriving DecidableEq, Repr

def sizeofProcess : Nat := 9364
def sizeofElfFile : Nat := 132
def sizeofTask : Nat := 64

/-! ## Files -/

structure FileLayer (σ : Type) where
  fopen : (filename : List UInt8) → σ → Kmem → Int × σ × Kmem
  /-- The status and `stat.filesize`. -/
  fstat : (fd : Int) → σ → Kmem → Int × Nat
  fread : (ptr size nmemb : Nat) → (fd : Int) → σ → Kmem → Int × σ × Kmem
  fclose : (fd : Int) → σ → Kmem → Int × σ × Kmem

/-! ## The kernel -/

/-- `PANDORA_MAX_PROCESSES` -/
def maxProcesses : Nat := 12

/-- `PANDORA_MAX_PROGRAM_ALLOCATIONS` -/
def maxProgramAllocations : Nat := 1024

structure Kernel (σ : Type) where
  kmem : Kmem
  queue : TaskQueue
  processAt : Nat → Process
  elfFileAt : Nat → ElfFile
  processes : Nat → Nat
  currentProcess : Nat
  files : σ

namespace Kernel

variable {σ : Type}

def mem (K : Kernel σ) : Mem := K.kmem.mem

/-- The kernel with other bytes. -/
def withMem (K : Kernel σ) (m : Mem) : Kernel σ := { K with kmem := { K.kmem with mem := m } }

/-- `table->entries` of the kernel heap. -/
def entries (K : Kernel σ) : Nat → UInt8 := K.kmem.heap.table.entries

def follow (K : Kernel σ) (p : Nat) : Kernel σ := { K with kmem := K.kmem.follow p }

def kzalloc (K : Kernel σ) (size : Nat) : Nat × Kernel σ :=
  let (ptr, k) := Pandora.kzalloc K.kmem size
  (ptr, { K with kmem := k })

def kfree (K : Kernel σ) (ptr : Nat) : Kernel σ := { K with kmem := Pandora.kfree K.kmem ptr }

/-- `*process = v` -/
def setProcess (K : Kernel σ) (process : Nat) (v : Process) : Kernel σ :=
  { K with processAt := Function.update K.processAt process v }

/-- `*elf_file = v` -/
def setElfFile (K : Kernel σ) (elfFile : Nat) (v : ElfFile) : Kernel σ :=
  { K with elfFileAt := Function.update K.elfFileAt elfFile v }

/-- `*task = v` -/
def setTask (K : Kernel σ) (task : Nat) (v : Task) : Kernel σ :=
  { K with queue := K.queue.set task v }

def fopen (F : FileLayer σ) (K : Kernel σ) (filename : List UInt8) : Int × Kernel σ :=
  let (res, files, k) := F.fopen filename K.files K.kmem
  (res, { K with files := files, kmem := k })

def fstat (F : FileLayer σ) (K : Kernel σ) (fd : Int) : Int × Nat := F.fstat fd K.files K.kmem

def fread (F : FileLayer σ) (K : Kernel σ) (ptr size nmemb : Nat) (fd : Int) : Int × Kernel σ :=
  let (res, files, k) := F.fread ptr size nmemb fd K.files K.kmem
  (res, { K with files := files, kmem := k })

def fclose (F : FileLayer σ) (K : Kernel σ) (fd : Int) : Kernel σ :=
  let (_, files, k) := F.fclose fd K.files K.kmem
  { K with files := files, kmem := k }

end Kernel

end Pandora
