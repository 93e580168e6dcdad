import Pandora.Fat.Defs
import Pandora.Heap.Kheap

/-!
# The state of the file system (`fs/file.c`, `fs/pparser.h`, `fs/fat/fat16.c`)

`Fs` is what the functions on paths, directories and descriptors work on: the kernel's memory with
its heap, the disk, the private data of the volume, and the structures in stores of their own, by
address. An array of directory entries is a store of entries by index; it is filled from the bytes
that were read into it. A freed structure keeps its last contents.
-/

namespace Pandora

open ByteMem

/-! ## Structures -/

/-- `struct path_root` -/
structure PathRoot where
  driveNo : Int := 0
  first : Nat := 0
deriving DecidableEq, Repr

/-- `struct path_part` -/
structure PathPart where
  part : Nat := 0
  next : Nat := 0
deriving DecidableEq, Repr

/-- `struct fat_item`; `item` is the union of `item` and `directory`. The ghost `source` is the array
and the index of the directory entry it was built from. -/
structure FatItem where
  item : Nat := 0
  type : FatItemType := .directory
  source : Nat × Nat := (0, 0)
deriving DecidableEq, Repr

/-- `struct fat_directory` -/
structure FatDirectory where
  item : Nat := 0
  total : Int := 0
  sectorPos : Int := 0
  endingSectorPos : Int := 0
deriving DecidableEq, Repr

/-- `struct fat_file_descriptor`, with the address of the item. -/
structure FatDescriptor where
  item : Nat := 0
  pos : Nat := 0
deriving DecidableEq, Repr

/-- `struct file_descriptor` of the one disk and the one filesystem. -/
structure FileDescriptor where
  index : Nat := 0
  priv : Nat := 0
deriving DecidableEq, Repr

def sizeofPathRoot : Nat := 8
def sizeofPathPart : Nat := 8
def sizeofFatItem : Nat := 8
def sizeofFatDirectory : Nat := 16
def sizeofFatDirectoryItem : Nat := 32
def sizeofFatDescriptor : Nat := 8
def sizeofFileDescriptor : Nat := 16

/-- `PANDORAOS_MAX_PATH` -/
def maxPath : Nat := 108

/-- `PANDORA_MAX_FILE_DESCRIPTORS` -/
def maxFileDescriptors : Nat := 512

/-- `struct fat_private`: besides what the reading functions use, the rest of the header, the stream
for directories and the root directory. -/
structure FatVolume extends FatPrivate where
  rootDirEntries : Nat
  fatCopies : Nat
  sectorsPerFat : Nat
  directoryStream : DiskStream := ⟨0⟩
  rootItem : Nat := 0
  rootTotal : Int := 0
  rootSectorPos : Int := 0
deriving DecidableEq, Repr

/-- `private->root_directory` -/
def FatVolume.rootDirectory (priv : FatVolume) : FatDirectory where
  item := priv.rootItem
  total := priv.rootTotal
  sectorPos := priv.rootSectorPos
  endingSectorPos := priv.endingSectorPos

/-- `disk->filesystem` is null where `hasFilesystem` is false. The ghost `closed` lists the pointers
that the filesystem's `close` was called with, the latest first. -/
structure Fs where
  kmem : Kmem
  disk : Disk
  hasFilesystem : Bool
  priv : FatVolume
  pathRootAt : Nat → PathRoot
  pathPartAt : Nat → PathPart
  fatItemAt : Nat → FatItem
  fatDirectoryAt : Nat → FatDirectory
  directoryItemsAt : Nat → Nat → FatDirectoryItem
  fatDescriptorAt : Nat → FatDescriptor
  fileDescriptorAt : Nat → FileDescriptor
  fileDescriptors : Nat → Nat
  closed : List Nat := []

namespace Fs

def mem (K : Fs) : Mem := K.kmem.mem

/-- `table->entries` of the kernel heap. -/
def entries (K : Fs) : Nat → UInt8 := K.kmem.heap.table.entries

def follow (K : Fs) (p : Nat) : Fs := { K with kmem := K.kmem.follow p }

def kzalloc (K : Fs) (size : Nat) : Nat × Fs :=
  let (ptr, k) := Pandora.kzalloc K.kmem size
  (ptr, { K with kmem := k })

def kfree (K : Fs) (ptr : Nat) : Fs := { K with kmem := Pandora.kfree K.kmem ptr }

def setMem (K : Fs) (m : Mem) : Fs := { K with kmem := { K.kmem with mem := m } }

def setPathRoot (K : Fs) (a : Nat) (v : PathRoot) : Fs :=
  { K with pathRootAt := Function.update K.pathRootAt a v }

def setPathPart (K : Fs) (a : Nat) (v : PathPart) : Fs :=
  { K with pathPartAt := Function.update K.pathPartAt a v }

def setFatItem (K : Fs) (a : Nat) (v : FatItem) : Fs :=
  { K with fatItemAt := Function.update K.fatItemAt a v }

def setFatDirectory (K : Fs) (a : Nat) (v : FatDirectory) : Fs :=
  { K with fatDirectoryAt := Function.update K.fatDirectoryAt a v }

def setDirectoryItems (K : Fs) (a : Nat) (v : Nat → FatDirectoryItem) : Fs :=
  { K with directoryItemsAt := Function.update K.directoryItemsAt a v }

def setFatDescriptor (K : Fs) (a : Nat) (v : FatDescriptor) : Fs :=
  { K with fatDescriptorAt := Function.update K.fatDescriptorAt a v }

def setFileDescriptor (K : Fs) (a : Nat) (v : FileDescriptor) : Fs :=
  { K with fileDescriptorAt := Function.update K.fileDescriptorAt a v }

def setFileDescriptors (K : Fs) (i : Nat) (v : Nat) : Fs :=
  { K with fileDescriptors := Function.update K.fileDescriptors i v }

end Fs

end Pandora
