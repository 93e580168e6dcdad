import Pandora.Process.State

/-!
# Loading ELF files (`loader/formats/elf_loader.c`)

The image is read into the heap and stays there, as it is in the file: a header is the bytes at the
start of `elf_memory`, the program headers are at `e_phoff` from it. None of the offsets in them is
checked against the length of the file.
-/

namespace Pandora

open ByteMem

/-- `EINFORMAT` of `status.h` -/
def einformat : Int := 9

/-- `PANDORA_PROGRAM_VIRTUAL_ADDRESS` -/
def programVirtualAddress : Nat := 0x400000

/-! ## Headers (`elf.h`) -/

def eType (m : Mem) (header : Nat) : Nat := read16 m (Word.add header 16)
def eEntry (m : Mem) (header : Nat) : Nat := read32 m (Word.add header 24)
def ePhoff (m : Mem) (header : Nat) : Nat := read32 m (Word.add header 28)
def ePhnum (m : Mem) (header : Nat) : Nat := read16 m (Word.add header 44)

/-- `struct elf32_phdr` -/
structure Elf32Phdr where
  pType : Nat
  pOffset : Nat
  pVaddr : Nat
  pFilesz : Nat
  pMemsz : Nat
  pFlags : Nat
deriving DecidableEq, Repr

/-- The program header at `a`. -/
def elf32Phdr (m : Mem) (a : Nat) : Elf32Phdr where
  pType := read32 m a
  pOffset := read32 m (Word.add a 4)
  pVaddr := read32 m (Word.add a 8)
  pFilesz := read32 m (Word.add a 16)
  pMemsz := read32 m (Word.add a 20)
  pFlags := read32 m (Word.add a 24)

def pfW : Nat := 0x02
def ptLoad : Nat := 1

/-! ## Validation -/

def elfValidSignature (m : Mem) (buffer : Nat) : Bool :=
  m buffer = 0x7F && m (Word.add buffer 1) = 0x45 && m (Word.add buffer 2) = 0x4C &&
    m (Word.add buffer 3) = 0x46

def elfValidClass (m : Mem) (header : Nat) : Bool :=
  m (Word.add header 4) = 0 || m (Word.add header 4) = 1

def elfValidEncoding (m : Mem) (header : Nat) : Bool :=
  m (Word.add header 5) = 0 || m (Word.add header 5) = 1

def elfIsExecutable (m : Mem) (header : Nat) : Bool :=
  eType m header = 2 && programVirtualAddress ≤ eEntry m header

def elfHasProgramHeader (m : Mem) (header : Nat) : Bool := ePhoff m header ≠ 0

def elfValidateLoaded (m : Mem) (header : Nat) : Int :=
  if elfValidSignature m header && elfValidClass m header && elfValidEncoding m header &&
      elfHasProgramHeader m header && elfIsExecutable m header then allOk
  else -einformat

/-! ## Program headers -/

def elfPheader (m : Mem) (header : Nat) : Nat :=
  if ePhoff m header = 0 then 0 else Word.add header (ePhoff m header)

def elfProgramHeader (m : Mem) (header index : Nat) : Nat :=
  Word.add (elfPheader m header) (32 * index)

def elfPhdrPhysAddress (file : ElfFile) (phdr : Elf32Phdr) : Nat :=
  Word.add file.elfMemory phdr.pOffset

def elfProcessPhdrPtLoad (file : ElfFile) (phdr : Elf32Phdr) : ElfFile :=
  let file := if phdr.pVaddr ≤ file.virtualBaseAddress ∨ file.virtualBaseAddress = 0 then
      { file with
        virtualBaseAddress := phdr.pVaddr
        physicalBaseAddress := Word.add file.elfMemory phdr.pOffset }
    else file
  let endVirtualAddress := Word.add phdr.pVaddr phdr.pFilesz
  if file.virtualEndAddress ≤ endVirtualAddress ∨ file.virtualEndAddress = 0 then
    { file with
      virtualEndAddress := endVirtualAddress
      physicalEndAddress := Word.add (Word.add file.elfMemory phdr.pOffset) phdr.pFilesz }
  else file

def elfProcessPheader (file : ElfFile) (phdr : Elf32Phdr) : ElfFile :=
  if phdr.pType = ptLoad then elfProcessPhdrPtLoad file phdr else file

/-- The loop of `elf_process_pheaders`, which never fails: `n = e_phnum - i` headers are left. -/
def elfProcessPheaders (m : Mem) : (n i : Nat) → ElfFile → ElfFile
  | 0, _, file => file
  | n + 1, i, file =>
    elfProcessPheaders m n (i + 1)
      (elfProcessPheader file (elf32Phdr m (elfProgramHeader m file.elfMemory i)))

section

variable {σ : Type}

def elfProcessLoaded (K : Kernel σ) (elfFile : Nat) : Int × Kernel σ :=
  let K := K.follow elfFile
  let header := (K.elfFileAt elfFile).elfMemory
  let K := K.follow header
  let res := elfValidateLoaded K.mem header
  if res < 0 then (res, K)
  else (allOk, K.setElfFile elfFile
    (elfProcessPheaders K.mem (ePhnum K.mem header) 0 (K.elfFileAt elfFile)))

/-! ## Files -/

def elfFileNew (K : Kernel σ) : Nat × Kernel σ :=
  let (elfFile, K) := K.kzalloc sizeofElfFile
  if elfFile = 0 then (0, K) else (elfFile, K.setElfFile elfFile {})

def elfFileFree (K : Kernel σ) (elfFile : Nat) : Kernel σ :=
  let K := K.follow elfFile
  let K := if (K.elfFileAt elfFile).elfMemory ≠ 0 then K.kfree (K.elfFileAt elfFile).elfMemory else K
  K.kfree elfFile

def elfClose (K : Kernel σ) (file : Nat) : Kernel σ :=
  if file = 0 then K
  else
    let K := K.follow file
    let K := K.kfree (K.elfFileAt file).elfMemory
    K.kfree file

/-- From the label `out` of `elf_load` on. -/
def elfLoad.out (F : FileLayer σ) (K : Kernel σ) (elfFile : Nat) (fd res : Int) : Int × Kernel σ :=
  let K := if res < 0 then elfFileFree K elfFile else K
  (res, K.fclose F fd)

/-- `elf_load` once the file is open. -/
def elfLoad.opened (F : FileLayer σ) (K : Kernel σ) (elfFile : Nat) (fd : Int) : Int × Kernel σ :=
  let (res, filesize) := K.fstat F fd
  if res < 0 then elfLoad.out F K elfFile fd res
  else
    let (elfMemory, K) := K.kzalloc filesize
    let K := K.follow elfFile
    let K := K.setElfFile elfFile { K.elfFileAt elfFile with elfMemory := elfMemory }
    let (res, K) := K.fread F elfMemory filesize 1 fd
    if res < 0 then elfLoad.out F K elfFile fd res
    else
      let (res, K) := elfProcessLoaded K elfFile
      elfLoad.out F K elfFile fd res

/-- The status and `*file_out`, which is set on success. -/
def elfLoad (F : FileLayer σ) (K : Kernel σ) (filename : List UInt8) : Int × Nat × Kernel σ :=
  let (elfFile, K) := elfFileNew K
  let (res, K) := K.fopen F filename
  let (res, K) :=
    if res ≤ 0 then elfLoad.out F K elfFile 0 (-eio) else elfLoad.opened F K elfFile res
  (res, if res < 0 then 0 else elfFile, K)

end

end Pandora
