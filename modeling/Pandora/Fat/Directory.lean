import Pandora.Fs.State

/-!
# Directories (`fs/fat/fat16.c`)

The number of entries of a directory is counted in one pass over the disk, from its first sector on,
up to an entry that begins with 0x00; the array of entries is then read by another way, for a
subdirectory along the chain of its clusters. A name is looked for among that many entries of the
array.

The count has no other end: `none` is one that runs past the positions an `int` holds.
-/

namespace Pandora

open ByteMem

def fatFileSubdirectory : Nat := 0x10

/-- The entry at `a`. -/
def fatDirectoryItem (m : Mem) (a : Nat) : FatDirectoryItem where
  filename := slice m a 8
  ext := slice m (a + 8) 3
  itemAttribute := (m (a + 11)).toNat
  high16BitsFirstCluster := read16 m (a + 20)
  low16BitsFirstCluser := read16 m (a + 26)
  filesize := read32 m (a + 28)

/-- The entries of the array at `a`. -/
def directoryItems (m : Mem) (a : Nat) : Nat → FatDirectoryItem := fun i =>
  fatDirectoryItem m (a + sizeofFatDirectoryItem * i)

/-! ## Strings (`string/string.c`) -/

def tolower (c : UInt8) : UInt8 := if 65 ≤ c ∧ c ≤ 90 then c + 32 else c

/-- The loop of `istrncmp`: `n` characters are left. A string is its characters, zero from its end
on. -/
def istrncmp.loop (str1 str2 : Nat → UInt8) : (n i : Nat) → Int
  | 0, _ => 0
  | n + 1, i =>
    let u1 := str1 i
    let u2 := str2 i
    if u1 ≠ u2 ∧ tolower u1 ≠ tolower u2 then (u1.toNat : Int) - u2.toNat
    else if u1 = 0 then 0
    else loop str1 str2 n (i + 1)

def istrncmp (str1 str2 : Nat → UInt8) (n : Nat) : Int := istrncmp.loop str1 str2 n 0

/-- The string of these characters. -/
def cstring (l : List UInt8) : Nat → UInt8 := fun i => l.getD i 0

/-! ## Names -/

/-- `fat16_to_proper_string`: up to a null or a space. -/
def fat16ToProperString (chars : List UInt8) : List UInt8 :=
  chars.takeWhile fun c => c ≠ 0 ∧ c ≠ 0x20

def fat16GetFullRelativeFilename (item : FatDirectoryItem) : List UInt8 :=
  let out := fat16ToProperString item.filename
  if item.ext.headD 0 ≠ 0 ∧ item.ext.headD 0 ≠ 0x20 then
    out ++ 0x2E :: fat16ToProperString item.ext
  else out

/-! ## Counting -/

/-- The loop of `fat16_get_total_items_for_directory`: `n` entries are left below `2 ^ 31`. -/
def fat16GetTotalItemsForDirectory.loop (disk : Disk) :
    (n : Nat) → DiskStream → (i : Int) → Option (Int × DiskStream)
  | 0, _, _ => none
  | n + 1, stream, i =>
    let (res, stream, m) := diskstreamerRead disk stream 0 sizeofFatDirectoryItem fun _ => 0
    let item := fatDirectoryItem m 0
    if res ≠ allOk then some (-eio, stream)
    else if item.filename.headD 0 = 0 then some (i, stream)
    else if item.filename.headD 0 = 0xE5 then loop disk n stream i
    else loop disk n stream (i + 1)

def fat16GetTotalItemsForDirectory (K : Fs) (directoryStartSector : Nat) : Option (Int × Fs) :=
  let directoryStartPos := Word.int (directoryStartSector * K.disk.sectorSize)
  let (res, stream) := diskstreamerSeek K.priv.directoryStream directoryStartPos
  if res ≠ allOk then some (-eio, K)
  else
    match fat16GetTotalItemsForDirectory.loop K.disk ((2 ^ 31 - directoryStartPos) / 32).toNat stream
        0 with
    | none => none
    | some (res, stream) => some (res, { K with priv := { K.priv with directoryStream := stream } })

/-! ## Loading -/

/-- `fat16_get_root_directory` once the array is allocated. -/
def fat16GetRootDirectory.read (K : Fs) (dir : Nat) (rootDirSectorPos rootDirSize totalSectors
    totalItems : Int) : Int × FatDirectory × Fs :=
  let (res, stream) := diskstreamerSeek K.priv.directoryStream
    (Word.int (rootDirSectorPos * K.disk.sectorSize))
  if res ≠ allOk then (-eio, {}, K.kfree dir)
  else
    let (res, stream, m) := diskstreamerRead K.disk stream dir rootDirSize K.mem
    let K := { K.setMem m with priv := { K.priv with directoryStream := stream } }
    let K := K.setDirectoryItems dir (directoryItems m dir)
    if res ≠ allOk then (-eio, {}, K.kfree dir)
    else
      (allOk, ⟨dir, totalItems, rootDirSectorPos, rootDirSectorPos + totalSectors⟩, K)

/-- The status and `*directory`. -/
def fat16GetRootDirectory (K : Fs) : Option (Int × FatDirectory × Fs) :=
  let rootDirSectorPos := K.priv.fatCopies * K.priv.sectorsPerFat + K.priv.reservedSectors
  let rootDirSize := K.priv.rootDirEntries * sizeofFatDirectoryItem
  let totalSectors := (rootDirSize : Int).tdiv K.disk.sectorSize
  let totalSectors :=
    if (rootDirSize : Int).tmod K.disk.sectorSize ≠ 0 then totalSectors + 1 else totalSectors
  match fat16GetTotalItemsForDirectory K rootDirSectorPos with
  | none => none
  | some (totalItems, K) =>
    let (dir, K) := K.kzalloc rootDirSize
    if dir = 0 then some (-enomem, {}, K)
    else some (fat16GetRootDirectory.read K dir rootDirSectorPos rootDirSize totalSectors totalItems)

def fat16FreeDirectory (K : Fs) (directory : Nat) : Fs :=
  if directory = 0 then K
  else
    let K := K.follow directory
    let K := if (K.fatDirectoryAt directory).item ≠ 0 then K.kfree (K.fatDirectoryAt directory).item
      else K
    K.kfree directory

/-- `fat16_load_fat_directory` once the structure is allocated. -/
def fat16LoadFatDirectory.read (K : Fs) (directory : Nat) (item : FatDirectoryItem) :
    Option (Nat × Fs) :=
  let cluster := Word.toInt (fat16GetFirstCluster item)
  let clusterSector := fat16ClusterToSector K.priv.toFatPrivate cluster
  match fat16GetTotalItemsForDirectory K (Word.ofInt clusterSector) with
  | none => none
  | some (totalItems, K) =>
    let directorySize := Word.ofInt (totalItems * sizeofFatDirectoryItem)
    let (items, K) := K.kzalloc directorySize
    let K := K.setFatDirectory directory
      { K.fatDirectoryAt directory with item := items, total := totalItems }
    if items = 0 then some (directory, fat16FreeDirectory K directory)
    else
      match fat16ReadInternal K.disk K.priv.toFatPrivate cluster 0 (Word.toInt directorySize) items
          K.mem with
      | none => none
      | some (res, priv, m) =>
        let K := { K.setMem m with priv := { K.priv with toFatPrivate := priv } }
        let K := K.setDirectoryItems items (directoryItems m items)
        some (directory, if res ≠ allOk then fat16FreeDirectory K directory else K)

/-- What is returned is the address of the directory also where it has been freed. -/
def fat16LoadFatDirectory (K : Fs) (item : FatDirectoryItem) : Option (Nat × Fs) :=
  if item.itemAttribute &&& fatFileSubdirectory = 0 then some (0, K)
  else
    let (directory, K) := K.kzalloc sizeofFatDirectory
    if directory = 0 then some (0, K)
    else fat16LoadFatDirectory.read (K.setFatDirectory directory {}) directory item

/-! ## Items -/

def fat16CloneDirectoryItem (K : Fs) (item : FatDirectoryItem) : Nat × Fs :=
  let (itemCopy, K) := K.kzalloc sizeofFatDirectoryItem
  if itemCopy = 0 then (0, K) else (itemCopy, K.setDirectoryItems itemCopy fun _ => item)

def fat16FatItemFree (K : Fs) (item : Nat) : Fs :=
  let K := K.follow item
  let K := match (K.fatItemAt item).type with
    | .directory => fat16FreeDirectory K (K.fatItemAt item).item
    | .file => K.kfree (K.fatItemAt item).item
  K.kfree item

/-- The item is entry `i` of the array at `array`. -/
def fat16NewFatItemForDirectoryItem (K : Fs) (array i : Nat) : Option (Nat × Fs) :=
  let item := K.directoryItemsAt array i
  let (fItem, K) := K.kzalloc sizeofFatItem
  if fItem = 0 then some (0, K)
  else if item.itemAttribute &&& fatFileSubdirectory ≠ 0 then
    match fat16LoadFatDirectory K item with
    | none => none
    | some (directory, K) => some (fItem, K.setFatItem fItem ⟨directory, .directory, (array, i)⟩)
  else
    let (copy, K) := fat16CloneDirectoryItem K item
    some (fItem, K.setFatItem fItem ⟨copy, .file, (array, i)⟩)

/-- The loop of `fat16_find_item_in_directory`: `n = total - i` entries are left. -/
def fat16FindItemInDirectory.loop (array : Nat) (name : Nat → UInt8) :
    (n i fItem : Nat) → Fs → Option (Nat × Fs)
  | 0, _, fItem, K => some (fItem, K)
  | n + 1, i, fItem, K =>
    let tmpFilename := fat16GetFullRelativeFilename (K.directoryItemsAt array i)
    if istrncmp (cstring tmpFilename) name maxPath = 0 then
      match fat16NewFatItemForDirectoryItem K array i with
      | none => none
      | some (fItem, K) => loop array name n (i + 1) fItem K
    else loop array name n (i + 1) fItem K

def fat16FindItemInDirectory (K : Fs) (directory : FatDirectory) (name : Nat → UInt8) :
    Option (Nat × Fs) :=
  fat16FindItemInDirectory.loop directory.item name directory.total.toNat 0 0 K

end Pandora
