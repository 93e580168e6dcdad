import Pandora.Fat.Directory
import Pandora.Fat.Seek
import Pandora.Fs.Path

/-!
# Opening and closing on a FAT16 volume (`fs/fat/fat16.c`)

`fat16_get_directory_entry` walks along the parts of a path, from the root directory on. Every item it
passes through is freed once the next one is built. `fat16_open` reports failure by an error code cast
to a pointer.

The operations on an open file read the directory entry that the descriptor's item points at.
-/

namespace Pandora

open ByteMem

def erdonly : Int := 6

/-- `FILE_MODE` -/
inductive FileMode where
  | read
  | write
  | append
  | invalid
deriving DecidableEq, Repr

/-- The loop of `fat16_get_directory_entry`: at most `n` parts are left. -/
def fat16GetDirectoryEntry.loop : (n : Nat) → Fs → (currentItem nextPart : Nat) → Option (Nat × Fs)
  | 0, K, currentItem, nextPart => if nextPart = 0 then some (currentItem, K) else none
  | n + 1, K, currentItem, nextPart =>
    if nextPart = 0 then some (currentItem, K)
    else
      let K := K.follow currentItem
      match (K.fatItemAt currentItem).type with
      | .file => some (0, K)
      | .directory =>
        let K := (K.follow nextPart).follow (K.fatItemAt currentItem).item
        let directory := K.fatDirectoryAt (K.fatItemAt currentItem).item
        match fat16FindItemInDirectory K directory (K.stringAt (K.pathPartAt nextPart).part) with
        | none => none
        | some (tmpItem, K) =>
          loop n (fat16FatItemFree K currentItem) tmpItem (K.pathPartAt nextPart).next

def fat16GetDirectoryEntry (K : Fs) (path : Nat) : Option (Nat × Fs) :=
  let K := K.follow path
  match fat16FindItemInDirectory K K.priv.rootDirectory (K.stringAt (K.pathPartAt path).part) with
  | none => none
  | some (rootItem, K) =>
    if rootItem = 0 then some (0, K)
    else fat16GetDirectoryEntry.loop maxPath K rootItem (K.pathPartAt path).next

/-- The descriptor, or an error code. -/
def fat16Open (K : Fs) (path : Nat) (mode : FileMode) : Option (Nat × Fs) :=
  if mode ≠ .read then some (Word.ofInt (-erdonly), K)
  else
    let (descriptor, K) := K.kzalloc sizeofFatDescriptor
    if descriptor = 0 then some (Word.ofInt (-enomem), K)
    else
      match fat16GetDirectoryEntry K path with
      | none => none
      | some (item, K) =>
        let K := K.setFatDescriptor descriptor ⟨item, 0⟩
        if item = 0 then some (Word.ofInt (-eio), K.kfree descriptor) else some (descriptor, K)

def fat16FreeFileDescriptor (K : Fs) (desc : Nat) : Fs :=
  let K := K.follow desc
  (fat16FatItemFree K (K.fatDescriptorAt desc).item).kfree desc

def fat16Close (K : Fs) (priv : Nat) : Int × Fs :=
  (0, fat16FreeFileDescriptor { K with closed := priv :: K.closed } priv)

/-! ## Operations on an open file -/

/-- The status and `stat->filesize`. -/
def fat16Stat (K : Fs) (priv : Nat) : Int × Nat × Fs :=
  let K := K.follow priv
  let descItem := (K.fatDescriptorAt priv).item
  let K := K.follow descItem
  if (K.fatItemAt descItem).type ≠ .file then (-einvarg, 0, K)
  else
    let ritem := (K.fatItemAt descItem).item
    let K := K.follow ritem
    (0, (K.directoryItemsAt ritem 0).filesize, K)

/-- `fat16_read` on the descriptor at `descriptor`. -/
def Fs.fat16Read (K : Fs) (descriptor size nmemb outPtr : Nat) : Option (Int × Fs) :=
  let K := K.follow descriptor
  let fatDesc := K.fatDescriptorAt descriptor
  let K := K.follow fatDesc.item
  let item := (K.fatItemAt fatDesc.item).item
  let K := if nmemb = 0 then K else K.follow item
  match Pandora.fat16Read K.disk K.priv.toFatPrivate ⟨K.directoryItemsAt item 0, fatDesc.pos⟩ size
      nmemb outPtr K.mem with
  | none => none
  | some (res, priv, desc, m) =>
    let K := { K.setMem m with priv := { K.priv with toFatPrivate := priv } }
    some (res, K.setFatDescriptor descriptor { fatDesc with pos := desc.pos })

/-- `fat16_seek` on the descriptor at `priv`. -/
def Fs.fat16Seek (K : Fs) (priv offset seekMode : Nat) : Int × Fs :=
  let K := K.follow priv
  let desc := K.fatDescriptorAt priv
  let K := K.follow desc.item
  let item := K.fatItemAt desc.item
  let K := if item.type = .file then K.follow item.item else K
  let (res, desc') := Pandora.fat16Seek item.type ⟨K.directoryItemsAt item.item 0, desc.pos⟩ offset
    seekMode
  (res, K.setFatDescriptor priv { desc with pos := desc'.pos })

end Pandora
