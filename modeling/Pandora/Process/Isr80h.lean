import Pandora.Fs.State
import Pandora.Paging.Refine
import Pandora.Process.Segments

/-!
# System calls on behalf of a task (`isr80h/process.c`, `isr80h/heap.c`, `task/task.c`)

A system call takes its arguments from the stack of the calling task, which it reads through the
task's own page directory. System call 8 gets a pointer there and writes the eight bytes of a
`struct process_arguments` through it. It turns the pointer into a physical address first, with the
directory entry of the first byte and nothing but its address bits.

`UserMay m dir virt phys` is what the processor asks of a user: both levels of the tables grant
writing at `virt`, which is the byte `phys` of memory. `command8_writes_for_user_iff` says when the
eight bytes are all such.
-/

namespace Pandora

open ByteMem

variable {σ : Type}

/-! ## The task's view -/

def taskVirtualAddressToPhysical (K : Kernel σ) (task virtualAddress : Nat) : Nat :=
  pagingGetPhyiscalAddress K.mem (read32 K.mem (K.queue.task task).pageDirectory) virtualAddress

/-- Byte `i` of the word that the task sees at `virt`. -/
def taskByte (K : Kernel σ) (task virt i : Nat) : Nat :=
  (K.mem (taskVirtualAddressToPhysical K task (Word.add virt i))).toNat

/-- The word that the task sees at `virt`. -/
def taskWord (K : Kernel σ) (task virt : Nat) : Nat :=
  taskByte K task virt 0 + 2 ^ 8 * taskByte K task virt 1 + 2 ^ 16 * taskByte K task virt 2 +
    2 ^ 24 * taskByte K task virt 3

/-- Pull the stack item from the task stack -/
def taskGetStackItem (K : Kernel σ) (task index : Nat) : Nat :=
  taskWord K task (Word.add (K.queue.task task).registers.esp (4 * index))

/-! ## System call 8 -/

/-- The word `v` is written at `a`; behind the last address comes the first. -/
def storeWord (m : Mem) (a v : Nat) : Mem := fun x =>
  if Word.sub x a < 4 then byte v (Word.sub x a) else m x

/-- `argc` and `argv` are the addresses that are written. -/
def processGetArguments (K : Kernel σ) (process argc argv : Nat) : Kernel σ :=
  let m := storeWord K.mem argc (K.processAt process).arguments.argc
  { K with kmem := { K.kmem with mem := storeWord m argv (K.processAt process).arguments.argv } }

/-- Where `struct process_arguments` is, for the kernel. -/
def command8Arguments (K : Kernel σ) : Nat :=
  taskVirtualAddressToPhysical K K.queue.current (taskGetStackItem K K.queue.current 0)

def isr80hCommand8GetProgramArguments (K : Kernel σ) : Kernel σ :=
  let process := (K.queue.task K.queue.current).process
  let arguments := command8Arguments K
  processGetArguments K process arguments (Word.add arguments 4)

/-! ## System calls 4 and 7

`item` is the word that the program has pushed for the call. -/

def isr80hCommand4Malloc (K : Kernel σ) (item : Nat) : Nat × Kernel σ :=
  processMalloc K (K.queue.task K.queue.current).process item

def taskSwitch (K : Kernel σ) (task : Nat) : Kernel σ :=
  { K with queue := { K.queue with current := task } }

/-- `strlen`; `none` where the memory has no terminator. -/
def strlen (m : Mem) : (fuel ptr : Nat) → Option Nat
  | 0, _ => none
  | fuel + 1, ptr => if m ptr = 0 then some 0 else (strlen m fuel (Word.add ptr 1)).map (· + 1)

/-- Up to `n` characters of the string at `ptr`, which `strncpy` with the count `n + 1` copies. -/
def stringPrefix (m : Mem) : (n ptr : Nat) → List UInt8
  | 0, _ => []
  | n + 1, ptr => if m ptr = 0 then [] else m ptr :: stringPrefix m n (Word.add ptr 1)

/-- How a system call ends: it returns to the program, or `task_return` enters the current task. -/
inductive SyscallEnd (σ : Type) where
  | returned (value : Nat) (K : Kernel σ)
  | entered (K : Kernel σ)

/-- `"0:/"` -/
def pathPrefix : List UInt8 := [0x30, 0x3A, 0x2F]

/-- `none` where a string or a list has no end, and where the name overruns `path`. -/
def isr80hCommand7InvokeSystemCommand (F : FileLayer σ) (K : Kernel σ) (item stale : Nat) :
    Option (SyscallEnd σ) :=
  let arguments := taskVirtualAddressToPhysical K K.queue.current item
  if arguments = 0 then some (.returned (Word.ofInt (-einvarg)) K)
  else
    match strlen K.mem argumentFuel arguments with
    | none => none
    | some 0 => some (.returned (Word.ofInt (-einvarg)) K)
    | some _ =>
      let path := pathPrefix ++ stringPrefix K.mem (maxPath - 1) arguments
      if maxPath < path.length + 1 then none
      else
        let (res, process, K) := processLoadSwitch F K path 0 stale
        if res < 0 then some (.returned (Word.ofInt res) K)
        else
          match processInjectArguments K process arguments with
          | none => none
          | some (res, K) =>
            if res < 0 then some (.returned (Word.ofInt res) K)
            else some (.entered (taskSwitch K (K.processAt process).task))

/-! ## What a user may write -/

/-- The page tables of `dir` grant a user writing at `virt`, which is `phys` (module doc). -/
def UserMay (m : Mem) (dir virt phys : Nat) : Prop :=
  let directoryEntry := read32 m (dir + 4 * (virt / (1024 * 4096)))
  let entry := read32 m ((directoryEntry &&& 0xFFFFF000) + 4 * (virt % (1024 * 4096) / 4096))
  directoryEntry &&& pagingUserWriteable = pagingUserWriteable ∧
    entry &&& pagingUserWriteable = pagingUserWriteable ∧
    phys = (entry &&& 0xFFFFF000) + virt % 4096

/-- The page at `virt` is mapped for a user to write and, where eight bytes from `virt` on leave it,
so is the next one, to the frame that follows. -/
def ArgumentsMapped (m : Mem) (table : Nat → Nat) (virt : Nat) : Prop :=
  let entry := pageEntry m table (virt / 4096)
  let next := pageEntry m table ((virt / 4096 + 1) % 2 ^ 20)
  entry &&& pagingUserWriteable = pagingUserWriteable ∧
    (4088 < virt % 4096 → next &&& pagingUserWriteable = pagingUserWriteable ∧
      next / 4096 = (entry / 4096 + 1) % 2 ^ 20)

theorem and_userWriteable (x : Nat) : x &&& pagingUserWriteable = x % 8 :=
  Nat.and_two_pow_sub_one_eq_mod x 3

section

variable {m : Mem} {dir virt phys : Nat} {table : Nat → Nat}

/-- In the directory of a task the entry of the page decides. -/
theorem userMay_iff (h : PageDir m dir pagingUserWriteable table) (hv : virt < 2 ^ 32) :
    UserMay m dir virt phys ↔
      pageEntry m table (virt / 4096) &&& pagingUserWriteable = pagingUserWriteable ∧
        phys = pageEntry m table (virt / 4096) / 4096 * 4096 + virt % 4096 := by
  have hi : virt / (1024 * 4096) < 1024 := by omega
  have hd := h.entry _ hi
  have hal := (h.window _ hi).aligned
  have hhi := (h.window _ hi).hi
  have hflags : read32 m (dir + 4 * (virt / (1024 * 4096))) &&& pagingUserWriteable =
      pagingUserWriteable := by
    rw [and_userWriteable, hd]
    change (table (virt / (1024 * 4096)) + 7) % 8 = 7
    omega
  have htable : read32 m (dir + 4 * (virt / (1024 * 4096))) &&& 0xFFFFF000 =
      table (virt / (1024 * 4096)) := by
    rw [Word.and_page_mask (read32_lt _ _), hd]
    change (table (virt / (1024 * 4096)) + 7) / 4096 * 4096 = _
    omega
  have hentry : read32 m (table (virt / (1024 * 4096)) + 4 * (virt % (1024 * 4096) / 4096)) =
      pageEntry m table (virt / 4096) := by
    unfold pageEntry entryAddr
    rw [show virt / 4096 / 1024 = virt / (1024 * 4096) by omega,
      show virt / 4096 % 1024 = virt % (1024 * 4096) / 4096 by omega]
  unfold UserMay
  dsimp only
  rw [htable, hentry, Word.and_page_mask (pageEntry_lt m table _)]
  exact and_iff_right hflags

/-- The eight bytes from `virt` on, where the kernel puts them. -/
theorem userMay_eight_iff (h : PageDir m dir pagingUserWriteable table) (hv : virt < 2 ^ 32)
    (hphys : phys = pageEntry m table (virt / 4096) / 4096 * 4096 + virt % 4096) :
    (∀ i < 8, UserMay m dir (Word.add virt i) (Word.add phys i)) ↔
      ArgumentsMapped m table virt := by
  have hlt := pageEntry_lt m table (virt / 4096)
  have hphys_lt : phys < 2 ^ 32 := by omega
  -- a byte of the first page
  have hfirst : ∀ {i : Nat}, i < 4096 - virt % 4096 →
      (UserMay m dir (Word.add virt i) (Word.add phys i) ↔
        pageEntry m table (virt / 4096) &&& pagingUserWriteable = pagingUserWriteable) := by
    intro i hi
    rw [userMay_iff h (Word.add_lt _ _), Word.add_of_lt (by omega), Word.add_of_lt (by omega),
      show (virt + i) / 4096 = virt / 4096 by omega]
    exact and_iff_left (by omega)
  -- a byte of the next
  have hsecond : ∀ {i : Nat}, 4096 - virt % 4096 ≤ i → i < 8 →
      (UserMay m dir (Word.add virt i) (Word.add phys i) ↔
        pageEntry m table ((virt / 4096 + 1) % 2 ^ 20) &&& pagingUserWriteable =
            pagingUserWriteable ∧
          pageEntry m table ((virt / 4096 + 1) % 2 ^ 20) / 4096 =
            (pageEntry m table (virt / 4096) / 4096 + 1) % 2 ^ 20) := by
    intro i hi hi'
    have hlt' := pageEntry_lt m table ((virt / 4096 + 1) % 2 ^ 20)
    rw [userMay_iff h (Word.add_lt _ _), Word.add_eq, Word.add_eq,
      show (virt + i) % 2 ^ 32 / 4096 = (virt / 4096 + 1) % 2 ^ 20 by omega]
    refine and_congr_right fun _ => ?_
    constructor <;> intro <;> omega
  constructor
  · intro hall
    refine ⟨(hfirst (by omega)).1 (hall 0 (by decide)), fun hcross => ?_⟩
    exact (hsecond (Nat.le_refl _) (by omega)).1 (hall (4096 - virt % 4096) (by omega))
  · rintro ⟨hentry, hnext⟩ i hi
    rcases Nat.lt_or_ge i (4096 - virt % 4096) with hin | hout
    · exact (hfirst hin).2 hentry
    · exact (hsecond hout hi).2 (hnext (by omega))

end

/-! ## What the call writes -/

/-- The call wrote the argument count to the first word at `a` and the argument vector to the second,
and nothing else. -/
structure WritesArguments (K K' : Kernel σ) (process a : Nat) : Prop where
  argc : ∀ i < 4, K'.mem (Word.add a i) = byte (K.processAt process).arguments.argc i
  argv : ∀ i < 4, K'.mem (Word.add a (4 + i)) = byte (K.processAt process).arguments.argv i
  others : ∀ x < 2 ^ 32, (∀ i < 8, x ≠ Word.add a i) → K'.mem x = K.mem x

/-- The eight bytes that the call writes at `a` are those at `virt` for the user, who may write
them. -/
def WritesForUser (K K' : Kernel σ) (process dir virt a : Nat) : Prop :=
  WritesArguments K K' process a ∧ ∀ i < 8, UserMay K.mem dir (Word.add virt i) (Word.add a i)

section

variable {K : Kernel σ} {task dir virt a : Nat} {table : Nat → Nat}

theorem storeWord_apply {m : Mem} {v i : Nat} (hi : i < 4) :
    storeWord m a v (Word.add a i) = byte v i := by
  have hsub : Word.sub (Word.add a i) a = i := by
    rw [Word.sub_eq, Word.add_eq]
    omega
  unfold storeWord
  rw [hsub, if_pos hi]

theorem storeWord_other {m : Mem} {v x : Nat} (hx : x < 2 ^ 32)
    (h : ∀ i < 4, x ≠ Word.add a i) : storeWord m a v x = m x := by
  unfold storeWord
  refine if_neg fun hlt => h _ hlt ?_
  rw [Word.sub_eq, Word.add_eq]
  omega

theorem processGetArguments_writes (K : Kernel σ) (process a : Nat) :
    WritesArguments K (processGetArguments K process a (Word.add a 4)) process a where
  argc := fun i hi => by
    refine (storeWord_other (Word.add_lt _ _) fun j hj => ?_).trans
      (storeWord_apply hi)
    rw [Word.add_eq, Word.add_eq, Word.add_eq]
    omega
  argv := fun i hi => by
    have hadd : Word.add a (4 + i) = Word.add (Word.add a 4) i := by
      rw [Word.add_eq, Word.add_eq, Word.add_eq]
      omega
    rw [hadd]
    exact storeWord_apply hi
  others := fun x hx hne => by
    refine (storeWord_other hx fun j hj he => ?_).trans
      (storeWord_other hx fun j hj => hne j (by omega))
    refine hne (4 + j) (by omega) (he.trans ?_)
    rw [Word.add_eq, Word.add_eq, Word.add_eq]
    omega

theorem taskWord_lt (K : Kernel σ) (task virt : Nat) : taskWord K task virt < 2 ^ 32 := by
  have hlt : ∀ i, taskByte K task virt i < 2 ^ 8 := fun i => UInt8.toNat_lt _
  have h0 := hlt 0
  have h1 := hlt 1
  have h2 := hlt 2
  have h3 := hlt 3
  unfold taskWord
  omega

theorem taskVirtualAddressToPhysical_eq {f : Nat} (hd : PageDir K.mem dir f table)
    (hc : ChunkOf K.mem (K.queue.task task).pageDirectory dir table) (hv : virt < 2 ^ 32) :
    taskVirtualAddressToPhysical K task virt =
      pageEntry K.mem table (virt / 4096) / 4096 * 4096 + virt % 4096 :=
  (hd.reads hc).physical virt hv

/-- **The kernel writes for a user where the user may write** exactly when the eight bytes at the
pointer are mapped for writing, one page after the other. -/
theorem command8_writes_for_user_iff (hd : PageDir K.mem dir pagingUserWriteable table)
    (hc : ChunkOf K.mem (K.queue.task K.queue.current).pageDirectory dir table) :
    WritesForUser K (isr80hCommand8GetProgramArguments K)
        (K.queue.task K.queue.current).process dir (taskGetStackItem K K.queue.current 0)
        (command8Arguments K) ↔
      ArgumentsMapped K.mem table (taskGetStackItem K K.queue.current 0) := by
  have hv : taskGetStackItem K K.queue.current 0 < 2 ^ 32 := taskWord_lt K _ _
  have hphys : command8Arguments K = _ := taskVirtualAddressToPhysical_eq hd hc hv
  have hlt := pageEntry_lt K.mem table (taskGetStackItem K K.queue.current 0 / 4096)
  rw [← userMay_eight_iff hd hv hphys]
  exact and_iff_right (processGetArguments_writes K _ _)

end

/-! ## A fresh task -/

/-- The kernel with a task whose directory, at `0x01000000`, is as `task_init` builds it: every page
is mapped to itself, for a user to read. The task has pushed the address of the directory. -/
def freshTaskKernel : Kernel Unit where
  kmem := {
    heap := {
      saddr := 0x01000000
      table := {
        entries := fun i => if i < 1026 then entryTaken ||| isFirst else entryFree
        total := 25600 } }
    mem := fun x =>
      if 0x01000000 ≤ x ∧ x < 0x01001000 then byte (blockAddr ((x - 0x01000000) / 4 + 1) + 7) (x % 4)
      else if 0x01001000 ≤ x ∧ x < 0x01401000 then
        byte (4096 * ((x - 0x01001000) / 4) + 5) (x % 4)
      else if 0x01401000 ≤ x ∧ x < 0x01401004 then byte 0x01000000 (x % 4)
      else if 0x3FEFFC ≤ x ∧ x < 0x3FF000 then byte 0x01000000 (x % 4)
      else 0 }
  queue := {
    task := fun _ => {
      pageDirectory := blockAddr 1025
      registers := { taskRegisters programVirtualAddress with esp := 0x3FEFFC }
      process := 2 }
    head := 1
    tail := 1
    current := 1 }
  processAt := fun _ => { task := 1, arguments := { argc := 1, argv := 0x01402000 } }
  elfFileAt := fun _ => {}
  processes := fun i => if i = 0 then 2 else 0
  currentProcess := 2
  files := ()

theorem freshTaskKernel_pageDir :
    PageDir freshTaskKernel.mem 0x01000000 pagingUserWriteable (fun i => blockAddr (i + 1)) :=
  firstBlocks_pageDir fun _ hx hx' => if_pos ⟨hx, hx'⟩

theorem freshTaskKernel_chunk :
    ChunkOf freshTaskKernel.mem
      (freshTaskKernel.queue.task freshTaskKernel.queue.current).pageDirectory 0x01000000
      (fun i => blockAddr (i + 1)) where
  directory := read32_of_bytes (by decide) fun j hj => by
    have hmod : (0x01401000 + j) % 4 = j := by omega
    have hmem : freshTaskKernel.mem (0x01401000 + j) = byte 0x01000000 ((0x01401000 + j) % 4) :=
      (if_neg (by omega)).trans ((if_neg (by omega)).trans (if_pos (by omega)))
    rw [hmod] at hmem
    exact hmem
  apart := fun i hi => by
    refine .inr ?_
    change blockAddr (i + 1) + 4096 ≤ blockAddr 1025
    unfold blockAddr
    omega

/-- The identity map, for a user to read. -/
theorem freshTaskKernel_entry {p : Nat} (hp : p < 2 ^ 20) :
    pageEntry freshTaskKernel.mem (fun i => blockAddr (i + 1)) p = 4096 * p + 5 := by
  have haddr : entryAddr (fun i => blockAddr (i + 1)) p = 0x01001000 + 4 * p := by
    unfold entryAddr blockAddr
    dsimp only
    omega
  unfold pageEntry
  rw [haddr]
  refine read32_of_bytes (by omega) fun j hj => ?_
  have hdiv : (0x01001000 + 4 * p + j - 0x01001000) / 4 = p := by omega
  have hmod : (0x01001000 + 4 * p + j) % 4 = j := by omega
  refine (if_neg (by omega)).trans ((if_pos (by omega)).trans ?_)
  rw [hdiv, hmod]

theorem freshTaskKernel_physical {virt : Nat} (hv : virt < 2 ^ 32) :
    taskVirtualAddressToPhysical freshTaskKernel freshTaskKernel.queue.current virt = virt := by
  rw [taskVirtualAddressToPhysical_eq freshTaskKernel_pageDir freshTaskKernel_chunk hv,
    freshTaskKernel_entry (by omega)]
  omega

theorem freshTaskKernel_item :
    taskGetStackItem freshTaskKernel freshTaskKernel.queue.current 0 = 0x01000000 := by
  have hbyte : ∀ i < 4, taskByte freshTaskKernel freshTaskKernel.queue.current 0x3FEFFC i =
      (byte 0x01000000 i).toNat := fun i hi => by
    have hmod : (0x3FEFFC + i) % 4 = i := by omega
    have hmem : freshTaskKernel.mem (0x3FEFFC + i) = byte 0x01000000 ((0x3FEFFC + i) % 4) :=
      (if_neg (by omega)).trans ((if_neg (by omega)).trans
        ((if_neg (by omega)).trans (if_pos (by omega))))
    unfold taskByte
    rw [freshTaskKernel_physical (Word.add_lt _ _), Word.add_of_lt (by omega), hmem, hmod]
  have hsp : Word.add (freshTaskKernel.queue.task freshTaskKernel.queue.current).registers.esp
      (4 * 0) = 0x3FEFFC := Word.add_of_lt (by decide)
  unfold taskGetStackItem taskWord
  rw [hsp, hbyte 0 (by decide), hbyte 1 (by decide), hbyte 2 (by decide), hbyte 3 (by decide)]
  decide

theorem command8_writes_for_user_iff_fresh :
    WritesForUser freshTaskKernel (isr80hCommand8GetProgramArguments freshTaskKernel) 2 0x01000000
        (taskGetStackItem freshTaskKernel freshTaskKernel.queue.current 0)
        (command8Arguments freshTaskKernel) ↔
      ArgumentsMapped freshTaskKernel.mem (fun i => blockAddr (i + 1))
        (taskGetStackItem freshTaskKernel freshTaskKernel.queue.current 0) :=
  command8_writes_for_user_iff freshTaskKernel_pageDir freshTaskKernel_chunk

/-- A task passes the address of its own page directory, which it may only read: the kernel writes
there. -/
theorem command8_overwrites_directory :
    WritesArguments freshTaskKernel (isr80hCommand8GetProgramArguments freshTaskKernel) 2
        0x01000000 ∧
      ¬ ∀ i < 8, UserMay freshTaskKernel.mem 0x01000000
        (Word.add (taskGetStackItem freshTaskKernel freshTaskKernel.queue.current 0) i)
        (Word.add (command8Arguments freshTaskKernel) i) := by
  have harguments : command8Arguments freshTaskKernel = 0x01000000 := by
    unfold command8Arguments
    rw [freshTaskKernel_item, freshTaskKernel_physical (by decide)]
  have hphys : 0x01000000 = pageEntry freshTaskKernel.mem (fun i => blockAddr (i + 1))
      (0x01000000 / 4096) / 4096 * 4096 + 0x01000000 % 4096 := by
    rw [freshTaskKernel_entry (by decide)]
  refine ⟨?_, fun hmay => ?_⟩
  · have hwrites := processGetArguments_writes freshTaskKernel 2 (command8Arguments freshTaskKernel)
    rw [harguments] at hwrites
    unfold isr80hCommand8GetProgramArguments
    rw [harguments]
    exact hwrites
  · rw [freshTaskKernel_item, harguments] at hmay
    have hmapped := ((userMay_eight_iff freshTaskKernel_pageDir (by decide) hphys).1 hmay).1
    rw [freshTaskKernel_entry (by decide), and_userWriteable] at hmapped
    exact absurd hmapped (by decide)

end Pandora
