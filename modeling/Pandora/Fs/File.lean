import Pandora.Fat.Open

/-!
# Files (`fs/file.c`)

The file layer over the one disk and its one filesystem. `fopen` has one place where it cleans up
after every failure (`fopen.out`): whatever was allocated before is given back, and the filesystem's
`close` is called with the private data, if there is any.
-/

namespace Pandora

open ByteMem

/-! ## Descriptors -/

/-- `file_free_descriptor` -/
def fileFreeDescriptor (K : Fs) (desc : Nat) : Fs :=
  let K := K.follow desc
  (K.setFileDescriptors ((K.fileDescriptorAt desc).index - 1) 0).kfree desc

/-- The loop of `file_new_descriptor`: `n` entries of the table are left, the next is `i`. -/
def fileNewDescriptor.loop : (n i : Nat) → Fs → Int × Nat × Fs
  | 0, _, K => (-enomem, 0, K)
  | n + 1, i, K =>
    if K.fileDescriptors i = 0 then
      let (desc, K) := K.kzalloc sizeofFileDescriptor
      -- the result of the allocation is not checked
      let K := K.follow desc
      let K := K.setFileDescriptor desc { K.fileDescriptorAt desc with index := i + 1 }
      (0, desc, K.setFileDescriptors i desc)
    else loop n (i + 1) K

/-- The status and the descriptor. -/
def fileNewDescriptor (K : Fs) : Int × Nat × Fs := fileNewDescriptor.loop maxFileDescriptors 0 K

/-- Null where there is no descriptor of that number. -/
def Fs.fileGetDescriptor (K : Fs) (fd : Int) : Nat :=
  if fd ≤ 0 ∨ fd ≥ 512 then 0 else K.fileDescriptors (fd - 1).toNat

/-! ## Opening -/

/-- `disk_get` finds the disk of this number. -/
def diskGet (index : Int) : Bool := index = 0

def fileGetModeByString (str : List UInt8) : FileMode :=
  if str.headD 0 = 0x72 then .read
  else if str.headD 0 = 0x77 then .write
  else if str.headD 0 = 0x61 then .append
  else .invalid

/-- The end of a failed `fopen`: what is null was not reached. -/
def fopen.out (K : Fs) (rootPath : Nat) (disk : Bool) (descriptorPrivateData desc : Nat) :
    Option (Int × Fs) :=
  match if rootPath ≠ 0 then pathparserFree K rootPath else some K with
  | none => none
  | some K =>
    let K := if disk ∧ descriptorPrivateData ≠ 0 then (fat16Close K descriptorPrivateData).2 else K
    let K := if desc ≠ 0 then fileFreeDescriptor K desc else K
    some (0, K)

/-- `fopen` once the path is parsed and the disk, the filesystem and the mode are in order. -/
def fopen.open (K : Fs) (rootPath : Nat) (mode : FileMode) : Option (Int × Fs) :=
  match fat16Open K (K.pathRootAt rootPath).first mode with
  | none => none
  | some (descriptorPrivateData, K) =>
    if iserr descriptorPrivateData then fopen.out K rootPath true descriptorPrivateData 0
    else
      let (res, desc, K) := fileNewDescriptor K
      if res < 0 then fopen.out K rootPath true descriptorPrivateData desc
      else
        let K := K.follow desc
        let K := K.setFileDescriptor desc
          { K.fileDescriptorAt desc with priv := descriptorPrivateData }
        some ((K.fileDescriptorAt desc).index, K)

def fopen (K : Fs) (filename modeStr : List UInt8) : Option (Int × Fs) :=
  let (rootPath, K) := pathparserParse K filename
  if rootPath = 0 then fopen.out K 0 false 0 0
  else if (K.pathRootAt rootPath).first = 0 then fopen.out K rootPath false 0 0
  else if !diskGet (K.pathRootAt rootPath).driveNo then fopen.out K rootPath false 0 0
  else if !K.hasFilesystem then fopen.out K rootPath true 0 0
  else
    let mode := fileGetModeByString modeStr
    if mode = .invalid then fopen.out K rootPath true 0 0
    else fopen.open K rootPath mode

/-! ## The other calls -/

/-- The status and `stat->filesize`. -/
def Fs.fstat (K : Fs) (fd : Int) : Int × Nat × Fs :=
  let desc := K.fileGetDescriptor fd
  if desc = 0 then (-eio, 0, K)
  else
    let K := K.follow desc
    fat16Stat K (K.fileDescriptorAt desc).priv

def Fs.fclose (K : Fs) (fd : Int) : Int × Fs :=
  let desc := K.fileGetDescriptor fd
  if desc = 0 then (-eio, K)
  else
    let K := K.follow desc
    let (res, K) := fat16Close K (K.fileDescriptorAt desc).priv
    (res, if res = allOk then fileFreeDescriptor K desc else K)

def Fs.fseek (K : Fs) (fd offset : Int) (whence : Nat) : Int × Fs :=
  let desc := K.fileGetDescriptor fd
  if desc = 0 then (-eio, K)
  else
    let K := K.follow desc
    K.fat16Seek (K.fileDescriptorAt desc).priv (Word.ofInt offset) whence

def Fs.fread (K : Fs) (ptr size nmemb : Nat) (fd : Int) : Option (Int × Fs) :=
  if size = 0 ∨ nmemb = 0 ∨ fd < 1 then some (-einvarg, K)
  else
    let desc := K.fileGetDescriptor fd
    if desc = 0 then some (-einvarg, K)
    else
      let K := K.follow desc
      K.fat16Read (K.fileDescriptorAt desc).priv size nmemb ptr

end Pandora
