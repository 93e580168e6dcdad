import Pandora.Disk.Stream
import Pandora.Heap.Defs

/-!
# Reading FAT16 files (`fs/fat/fat16.c`)

`FatPrivate` is what the reading functions use of `struct fat_private`. The streams are state: the
functions return the private data with the streams where they left them. The bytes go to memory at
`out`.

`fat16_read_internal_from_stream` reads at most a cluster and calls itself for the rest. A cluster
with no sectors would make no progress, so the model counts the calls: `none` is a read that did not
end within `total + 1` of them.
-/

namespace Pandora

open ByteMem

/-! ## On-disk data -/

/-- `struct fat_directory_item`: its name, where the file begins, and its size. -/
structure FatDirectoryItem where
  filename : List UInt8 := []
  ext : List UInt8 := []
  itemAttribute : Nat := 0
  high16BitsFirstCluster : Nat
  low16BitsFirstCluser : Nat
  filesize : Nat := 0
deriving DecidableEq

/-- `struct fat_private`: of the header `reserved_sectors` and `sectors_per_cluster`, of the root
directory `ending_sector_pos`, and the two streams. A null `fat_read_stream` is `none`. -/
structure FatPrivate where
  reservedSectors : Nat
  sectorsPerCluster : Nat
  endingSectorPos : Int
  clusterReadStream : DiskStream := ⟨0⟩
  fatReadStream : Option DiskStream := some ⟨0⟩
deriving DecidableEq, Repr

def fat16GetFirstCluster (item : FatDirectoryItem) : Nat :=
  item.high16BitsFirstCluster <<< 16 ||| item.low16BitsFirstCluser

/-! ## Clusters -/

def fat16ClusterToSector (priv : FatPrivate) (cluster : Int) : Int :=
  Word.int (priv.endingSectorPos + (cluster - 2) * priv.sectorsPerCluster)

def fat16GetFirstFatSector (priv : FatPrivate) : Nat := priv.reservedSectors

/-- The two bytes of the entry are read into a local variable, here a memory of its own. -/
def fat16GetFatEntry (disk : Disk) (priv : FatPrivate) (cluster : Int) : Int × FatPrivate :=
  match priv.fatReadStream with
  | none => (-1, priv)
  | some stream =>
    let fatTablePosition := fat16GetFirstFatSector priv * disk.sectorSize
    let (res, stream) := diskstreamerSeek stream (Word.int (fatTablePosition + cluster * 2))
    if res < 0 then (res, { priv with fatReadStream := some stream })
    else
      let (res, stream, result) := diskstreamerRead disk stream 0 2 fun _ => 0
      if res < 0 then (res, { priv with fatReadStream := some stream })
      else ((result 0).toNat + 2 ^ 8 * (result 1).toNat, { priv with fatReadStream := some stream })

/-- The loop of `fat16_get_cluster_for_offset`: `n` links are left to follow. -/
def fat16GetClusterForOffset.loop (disk : Disk) :
    (n : Nat) → (clusterToUse : Int) → FatPrivate → Int × FatPrivate
  | 0, clusterToUse, priv => (clusterToUse, priv)
  | n + 1, clusterToUse, priv =>
    let (entry, priv) := fat16GetFatEntry disk priv clusterToUse
    if entry = 0xFFF8 ∨ entry = 0xFFFF then (-eio, priv)
    else if entry = 0xFF7 then (-eio, priv)
    else if entry = 0xFF0 ∨ entry = 0xFF6 then (-eio, priv)
    else if entry = 0x00 then (-eio, priv)
    else loop disk n entry priv

def fat16GetClusterForOffset (disk : Disk) (priv : FatPrivate) (startingCluster offset : Int) :
    Int × FatPrivate :=
  let sizeOfClusterBytes := priv.sectorsPerCluster * disk.sectorSize
  let clustersAhead := offset.tdiv sizeOfClusterBytes
  fat16GetClusterForOffset.loop disk clustersAhead.toNat startingCluster priv

/-! ## Reading -/

def fat16ReadInternalFromStream (disk : Disk) :
    (fuel : Nat) → FatPrivate → DiskStream → (cluster offset total : Int) → (out : Nat) → Mem →
      Option (Int × FatPrivate × DiskStream × Mem)
  | 0, _, _, _, _, _, _, _ => none
  | fuel + 1, priv, stream, cluster, offset, total, out, m =>
    let sizeOfClusterBytes := priv.sectorsPerCluster * disk.sectorSize
    let (clusterToUse, priv) := fat16GetClusterForOffset disk priv cluster offset
    if clusterToUse < 0 then some (clusterToUse, priv, stream, m)
    else
      let offsetFromCluster := offset.tmod sizeOfClusterBytes
      let startingSector := fat16ClusterToSector priv clusterToUse
      let startingPos := Word.int (startingSector * disk.sectorSize + offsetFromCluster)
      let totalToRead := if total > sizeOfClusterBytes then sizeOfClusterBytes else total
      let (res, stream) := diskstreamerSeek stream startingPos
      if res ≠ allOk then some (res, priv, stream, m)
      else
        let (res, stream, m) := diskstreamerRead disk stream out totalToRead m
        if res ≠ allOk then some (res, priv, stream, m)
        else
          let total := total - totalToRead
          if total > 0 then
            fat16ReadInternalFromStream disk fuel priv stream cluster
              (Word.int (offset + totalToRead)) total (out + totalToRead.toNat) m
          else some (res, priv, stream, m)

def fat16ReadInternal (disk : Disk) (priv : FatPrivate) (startingCluster offset total : Int)
    (out : Nat) (m : Mem) : Option (Int × FatPrivate × Mem) :=
  match fat16ReadInternalFromStream disk (total.toNat + 1) priv priv.clusterReadStream
      startingCluster offset total out m with
  | none => none
  | some (res, priv, stream, m) => some (res, { priv with clusterReadStream := stream }, m)

/-! ## Files -/

/-- `FAT_ITEM_TYPE` -/
inductive FatItemType where
  | directory
  | file
deriving DecidableEq, Repr

/-- `struct fat_file_descriptor` of a file. -/
structure FatFileDescriptor where
  item : FatDirectoryItem
  pos : Nat := 0
deriving DecidableEq

/-- The loop of `fat16_read`: `n = nmemb - i` items are left; the offset is returned with the
result. -/
def fat16Read.loop (disk : Disk) (item : FatDirectoryItem) (size : Nat) :
    (n : Nat) → FatPrivate → (res offset : Int) → (outPtr : Nat) → Mem →
      Option (Int × FatPrivate × Int × Mem)
  | 0, priv, res, offset, _, m => some (res, priv, offset, m)
  | n + 1, priv, _, offset, outPtr, m =>
    match fat16ReadInternal disk priv (Word.toInt (fat16GetFirstCluster item)) offset
        (Word.toInt size) outPtr m with
    | none => none
    | some (res, priv, m) =>
      if res < 0 then some (res, priv, offset, m)
      else loop disk item size n priv res (Word.int (offset + size)) (outPtr + size) m

def fat16Read (disk : Disk) (priv : FatPrivate) (fatDesc : FatFileDescriptor) (size nmemb : Nat)
    (outPtr : Nat) (m : Mem) : Option (Int × FatPrivate × FatFileDescriptor × Mem) :=
  match fat16Read.loop disk fatDesc.item size nmemb priv 0 (Word.toInt fatDesc.pos) outPtr m with
  | none => none
  | some (res, priv, offset, m) =>
    if res < 0 then some (res, priv, fatDesc, m)
    else some (Word.toInt nmemb, priv, { fatDesc with pos := Word.ofInt offset }, m)

/-- The file layer over the one disk and its one filesystem: the private data of the volume and of
each open descriptor. -/
structure Files where
  priv : FatPrivate
  descriptors : Nat → Option FatFileDescriptor

def fileGetDescriptor (files : Files) (fd : Int) : Option FatFileDescriptor :=
  if fd ≤ 0 ∨ fd ≥ 512 then none else files.descriptors (fd - 1).toNat

def fread (disk : Disk) (files : Files) (ptr size nmemb : Nat) (fd : Int) (m : Mem) :
    Option (Int × Files × Mem) :=
  if size = 0 ∨ nmemb = 0 ∨ fd < 1 then some (-einvarg, files, m)
  else
    match fileGetDescriptor files fd with
    | none => some (-einvarg, files, m)
    | some desc =>
      match fat16Read disk files.priv desc size nmemb ptr m with
      | none => none
      | some (res, priv, desc, m) =>
        some (res, ⟨priv, Function.update files.descriptors (fd - 1).toNat (some desc)⟩, m)

end Pandora
