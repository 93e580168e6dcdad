import Pandora.Fs.Fail
import Pandora.Lib.Run

/-!
# Calls on an open directory (`fs/fat/fat16.c`, `fs/file.c`)

A path may lead to a subdirectory; the item of its descriptor holds the address of a `fat_directory`
where that of a file holds its directory entry. `fat16_stat` and `fat16_seek` look at the type of the
item first and refuse the call. `fat16_read` does not: what is at the address of the directory is taken
for an entry, and its first cluster is read.

That the structure is not taken for an entry is stated by what a call depends on: it does the same
whatever entry is found at that address (`CallRefused.blind`).
-/

namespace Pandora

open ByteMem

/-! ## `fat16_stat` with the structure of the caller -/

def fatFileReadOnly : Nat := 0x01

/-- `FILE_STAT_READ_ONLY` -/
def fileStatReadOnly : Nat := 1

/-- `struct file_stat` -/
structure FileStat where
  flags : Nat
  filesize : Nat
deriving DecidableEq, Repr

/-- `fat16_stat`: the status and `*stat`, which is `stat` before. -/
def fat16StatInto (K : Fs) (priv : Nat) (stat : FileStat) : Int × FileStat × Fs :=
  let K := K.follow priv
  let descItem := (K.fatDescriptorAt priv).item
  let K := K.follow descItem
  if (K.fatItemAt descItem).type ≠ .file then (-einvarg, stat, K)
  else
    let ritem := (K.fatItemAt descItem).item
    let K := K.follow ritem
    let entry := K.directoryItemsAt ritem 0
    let stat := { stat with filesize := entry.filesize, flags := 0x00 }
    let stat := if entry.itemAttribute &&& fatFileReadOnly ≠ 0 then
        { stat with flags := stat.flags ||| fileStatReadOnly }
      else stat
    (0, stat, K)

/-- `fstat`: the status and `*stat`. -/
def Fs.fstatInto (K : Fs) (fd : Int) (stat : FileStat) : Int × FileStat × Fs :=
  let desc := K.fileGetDescriptor fd
  if desc = 0 then (-eio, stat, K)
  else
    let K := K.follow desc
    fat16StatInto K (K.fileDescriptorAt desc).priv stat

section

variable {K K' : Fs} {fd offset : Int} {ptr size nmemb whence priv : Nat} {stat : FileStat}

/-- Of the structure the other functions use the size. -/
theorem fat16StatInto_eq (K : Fs) (priv : Nat) (stat : FileStat) :
    fat16Stat K priv = ((fat16StatInto K priv stat).1,
      if (fat16StatInto K priv stat).1 = 0 then (fat16StatInto K priv stat).2.1.filesize else 0,
      (fat16StatInto K priv stat).2.2) := by
  unfold fat16Stat fat16StatInto
  dsimp only
  split
  · rfl
  · split <;> rfl

/-! ## Open directories -/

/-- `private` of the descriptor of this number. -/
def Fs.openPriv (K : Fs) (fd : Int) : Nat := (K.fileDescriptorAt (K.fileGetDescriptor fd)).priv

def Fs.openItem (K : Fs) (fd : Int) : Nat := (K.fatDescriptorAt (K.openPriv fd)).item

/-- The address in the union of the item. -/
def Fs.openUnion (K : Fs) (fd : Int) : Nat := (K.fatItemAt (K.openItem fd)).item

/-- The number leads to a descriptor, and the item of that is a directory. -/
structure DirectoryOpen (K : Fs) (fd : Int) : Prop where
  descriptor : K.fileGetDescriptor fd ≠ 0
  type : (K.fatItemAt (K.openItem fd)).type = .directory

/-- A directory is open, and nothing has moved its position. -/
structure DirectoryAtStart (K : Fs) (fd : Int) : Prop extends DirectoryOpen K fd where
  pos : (K.fatDescriptorAt (K.openPriv fd)).pos = 0

inductive DescriptorCall where
  | fread (ptr size nmemb : Nat)
  | fseek (offset : Int) (whence : Nat)
  | fstat

namespace DescriptorCall

/-- The status, the caller's `struct file_stat` and the state; `none` is a read without an end. -/
def run (fd : Int) (K : Fs) (stat : FileStat) : DescriptorCall → Option (Int × FileStat × Fs)
  | fread ptr size nmemb => (K.fread ptr size nmemb fd).map fun r => (r.1, stat, r.2)
  | fseek offset whence => some ((K.fseek fd offset whence).1, stat, (K.fseek fd offset whence).2)
  | fstat => some (K.fstatInto fd stat)

def step (fd : Int) (s : Fs × FileStat) (c : DescriptorCall) : Fs × FileStat :=
  match c.run fd s.1 s.2 with
  | none => s
  | some (_, stat, K) => (K, stat)

/-- Not a read of some bytes. -/
def ReadsNothing : DescriptorCall → Prop
  | fread _ size nmemb => size = 0 ∨ nmemb = 0
  | _ => True

end DescriptorCall

/-- The call fails, and memory, the caller's structure and the position are as before; it does the same
whatever the directory is taken for as an entry. -/
structure CallRefused (fd : Int) (s : Fs × FileStat) (c : DescriptorCall) : Prop where
  fails : ∃ res K, c.run fd s.1 s.2 = some (res, s.2, K) ∧ res < 0 ∧ K.mem = s.1.mem ∧
    K.fatDescriptorAt = s.1.fatDescriptorAt
  blind : ∀ entries, c.run fd (s.1.setDirectoryItems (s.1.openUnion fd) entries) s.2 =
    (c.run fd s.1 s.2).map fun r =>
      (r.1, r.2.1, r.2.2.setDirectoryItems (s.1.openUnion fd) entries)

/-- The state once a call has followed the pointers to the item. -/
def Fs.looked (K : Fs) (fd : Int) : Fs :=
  ((K.follow (K.fileGetDescriptor fd)).follow (K.openPriv fd)).follow (K.openItem fd)

/-! ## Calls that look at the type -/

theorem looked_mem (K : Fs) (fd : Int) : (K.looked fd).mem = K.mem := by
  unfold Fs.looked Fs.follow Fs.mem
  simp

theorem DirectoryOpen.type_ne (h : DirectoryOpen K fd) : (K.fatItemAt (K.openItem fd)).type ≠ .file := by
  rw [h.type]
  simp

/-- `fat16_seek` on the descriptor of a directory. -/
theorem fat16Seek_directory {offset seekMode : Nat}
    (h : (K.fatItemAt (K.fatDescriptorAt priv).item).type = .directory) :
    K.fat16Seek priv offset seekMode =
      (-einvarg, (K.follow priv).follow (K.fatDescriptorAt priv).item) := by
  unfold Fs.fat16Seek Pandora.fat16Seek
  simp [Fs.follow, Fs.setFatDescriptor, h]

theorem fseek_directory (h : DirectoryOpen K fd) (offset : Int) (whence : Nat) :
    K.fseek fd offset whence = (-einvarg, K.looked fd) := by
  unfold Fs.fseek
  dsimp only
  rw [if_neg h.descriptor]
  exact fat16Seek_directory h.type

theorem fstat_directory (h : DirectoryOpen K fd) (stat : FileStat) :
    K.fstatInto fd stat = (-einvarg, stat, K.looked fd) := by
  unfold Fs.fstatInto fat16StatInto
  dsimp only
  rw [if_neg h.descriptor]
  exact if_pos h.type_ne

/-! ## A call that does not -/

theorem fread_nothing (h : size = 0 ∨ nmemb = 0) : K.fread ptr size nmemb fd = some (-einvarg, K) :=
  if_pos (h.imp_right .inl)

/-- From the start of a file nothing is read if its first cluster is negative: that is the result. -/
theorem readInternal_negative {disk : Disk} {volume : FatPrivate} {cluster total : Int} {out : Nat}
    {m : Mem} (h : cluster < 0) :
    fat16ReadInternal disk volume cluster 0 total out m = some (cluster, volume, m) := by
  have hfirst : fat16GetClusterForOffset disk volume cluster 0 = (cluster, volume) := by
    unfold fat16GetClusterForOffset
    simp [fat16GetClusterForOffset.loop]
  unfold fat16ReadInternal fat16ReadInternalFromStream
  dsimp only
  rw [hfirst]
  simp [h]

theorem fat16Read_negative {disk : Disk} {volume : FatPrivate} {entry : FatDirectoryItem} {out : Nat}
    {m : Mem} (hnmemb : nmemb ≠ 0) (h : Word.toInt (fat16GetFirstCluster entry) < 0) :
    Pandora.fat16Read disk volume ⟨entry, 0⟩ size nmemb out m =
      some (Word.toInt (fat16GetFirstCluster entry), volume, ⟨entry, 0⟩, m) := by
  obtain ⟨n, rfl⟩ : ∃ n, nmemb = n + 1 := ⟨nmemb - 1, by omega⟩
  have hpos : Word.toInt 0 = 0 := by simp [Word.toInt]
  unfold Pandora.fat16Read fat16Read.loop
  dsimp only
  rw [hpos, readInternal_negative h]
  simp [h]

/-- `fat16_read` at the start takes the first cluster from where the union of the item points. -/
theorem fsRead_negative {descriptor : Nat} (hpos : (K.fatDescriptorAt descriptor).pos = 0)
    (hnmemb : nmemb ≠ 0) (h : Word.toInt (fat16GetFirstCluster (K.directoryItemsAt
      (K.fatItemAt (K.fatDescriptorAt descriptor).item).item 0)) < 0) :
    ∃ K', K.fat16Read descriptor size nmemb ptr = some (Word.toInt (fat16GetFirstCluster
      (K.directoryItemsAt (K.fatItemAt (K.fatDescriptorAt descriptor).item).item 0)), K') := by
  unfold Fs.fat16Read
  simp only [Fs.follow, if_neg hnmemb]
  rw [hpos, fat16Read_negative hnmemb h]
  exact ⟨_, rfl⟩

/-- What is found at the address of the directory decides the result. -/
theorem fread_directory (h : DirectoryAtStart K fd) (hsize : size ≠ 0) (hnmemb : nmemb ≠ 0)
    (hneg : Word.toInt (fat16GetFirstCluster (K.directoryItemsAt (K.openUnion fd) 0)) < 0) :
    ∃ K', K.fread ptr size nmemb fd =
      some (Word.toInt (fat16GetFirstCluster (K.directoryItemsAt (K.openUnion fd) 0)), K') := by
  have hfd : ¬ fd < 1 := fun hlt => h.descriptor (if_pos (.inl (by omega)))
  obtain ⟨K', hread⟩ := @fsRead_negative (K.follow (K.fileGetDescriptor fd)) ptr size nmemb
    (K.openPriv fd) h.pos hnmemb hneg
  refine ⟨K', ?_⟩
  unfold Fs.fread
  rw [if_neg (by omega)]
  dsimp only
  rw [if_neg h.descriptor]
  exact hread

/-! ## The calls on an open directory -/

@[simp] theorem run_fread : (DescriptorCall.fread ptr size nmemb).run fd K stat =
    (K.fread ptr size nmemb fd).map fun r => (r.1, stat, r.2) := rfl

@[simp] theorem run_fseek : (DescriptorCall.fseek offset whence).run fd K stat =
    some ((K.fseek fd offset whence).1, stat, (K.fseek fd offset whence).2) := rfl

@[simp] theorem run_fstat : DescriptorCall.fstat.run fd K stat = some (K.fstatInto fd stat) := rfl

/-- What no refused call changes. -/
structure SameDirectory (fd : Int) (K K' : Fs) : Prop where
  descriptor : K'.fileGetDescriptor fd = K.fileGetDescriptor fd
  files : K'.fileDescriptorAt = K.fileDescriptorAt
  descriptors : K'.fatDescriptorAt = K.fatDescriptorAt
  items : K'.fatItemAt = K.fatItemAt

theorem DirectoryAtStart.same (h : DirectoryAtStart K fd) (hs : SameDirectory fd K K') :
    DirectoryAtStart K' fd := by
  have hpriv : K'.openPriv fd = K.openPriv fd := by
    unfold Fs.openPriv
    rw [hs.descriptor, hs.files]
  have hitem : K'.openItem fd = K.openItem fd := by
    unfold Fs.openItem
    rw [hpriv, hs.descriptors]
  refine ⟨⟨?_, ?_⟩, ?_⟩
  · rw [hs.descriptor]
    exact h.descriptor
  · rw [hs.items, hitem]
    exact h.type
  · rw [hs.descriptors, hpriv]
    exact h.pos

/-- A call that reads nothing follows pointers at most. -/
theorem run_readsNothing (h : DirectoryOpen K fd) (stat : FileStat) {c : DescriptorCall}
    (hc : c.ReadsNothing) : ∃ K', SameDirectory fd K K' ∧ K'.mem = K.mem ∧
      ∀ a v, c.run fd (K.setDirectoryItems a v) stat =
        some (-einvarg, stat, K'.setDirectoryItems a v) := by
  have hset : ∀ a v, DirectoryOpen (K.setDirectoryItems a v) fd := fun _ _ => ⟨h.descriptor, h.type⟩
  cases c with
  | fread ptr size nmemb =>
    refine ⟨K, ⟨rfl, rfl, rfl, rfl⟩, rfl, fun a v => ?_⟩
    rw [run_fread, fread_nothing hc]
    rfl
  | fseek offset whence =>
    refine ⟨K.looked fd, ⟨rfl, rfl, rfl, rfl⟩, looked_mem K fd, fun a v => ?_⟩
    rw [run_fseek, fseek_directory (hset a v)]
    rfl
  | fstat =>
    refine ⟨K.looked fd, ⟨rfl, rfl, rfl, rfl⟩, looked_mem K fd, fun a v => ?_⟩
    rw [run_fstat, fstat_directory (hset a v)]
    rfl

/-- Writing back the entries that are there. -/
theorem setDirectoryItems_self (K : Fs) (a : Nat) : K.setDirectoryItems a (K.directoryItemsAt a) = K := by
  unfold Fs.setDirectoryItems
  rw [Function.update_eq_self]

/-- An entry with this first cluster. -/
def clusterEntry (high low : Nat) : FatDirectoryItem where
  high16BitsFirstCluster := high
  low16BitsFirstCluser := low

/-- A read of some bytes depends on what the directory is taken for. -/
theorem not_refused_read (h : DirectoryAtStart K fd) (stat : FileStat) (hsize : size ≠ 0)
    (hnmemb : nmemb ≠ 0) : ¬ CallRefused fd (K, stat) (.fread ptr size nmemb) := by
  intro hr
  obtain ⟨res, K', hrun, -⟩ := hr.fails
  -- the status is the cluster of whatever entry is there
  have hstatus : ∀ low, Word.toInt (fat16GetFirstCluster (clusterEntry 0x8000 low)) < 0 →
      res = Word.toInt (fat16GetFirstCluster (clusterEntry 0x8000 low)) := by
    intro low hneg
    have hblind := hr.blind fun _ => clusterEntry 0x8000 low
    dsimp only at hrun hblind
    have hset : DirectoryAtStart (K.setDirectoryItems (K.openUnion fd) fun _ => clusterEntry 0x8000 low)
        fd := ⟨⟨h.descriptor, h.type⟩, h.pos⟩
    have hentry : (K.setDirectoryItems (K.openUnion fd) fun _ => clusterEntry 0x8000 low).directoryItemsAt
        ((K.setDirectoryItems (K.openUnion fd) fun _ => clusterEntry 0x8000 low).openUnion fd) 0 =
        clusterEntry 0x8000 low := congrFun (Function.update_self (K.openUnion fd) _ K.directoryItemsAt) 0
    obtain ⟨K₁, hread⟩ := @fread_directory _ fd ptr size nmemb hset hsize hnmemb (by rwa [hentry])
    rw [hrun, run_fread, hread, hentry] at hblind
    simp only [Option.map_some, Option.some.injEq, Prod.mk.injEq] at hblind
    exact hblind.1.symm
  have hzero := hstatus 0 (by decide +kernel)
  have hone := hstatus 1 (by decide +kernel)
  exact absurd (hzero.symm.trans hone) (by decide +kernel)

/-- A call on a directory is refused if and only if it is not a read of some bytes. -/
theorem refused_iff (h : DirectoryAtStart K fd) (stat : FileStat) (c : DescriptorCall) :
    CallRefused fd (K, stat) c ↔ c.ReadsNothing := by
  constructor
  · intro hr
    cases c with
    | fseek offset whence => exact trivial
    | fstat => exact trivial
    | fread ptr size nmemb =>
      by_contra hc
      have hne : size ≠ 0 ∧ nmemb ≠ 0 := not_or.1 hc
      exact not_refused_read h stat hne.1 hne.2 hr
  · intro hc
    obtain ⟨K', hs, hmem, hrun⟩ := run_readsNothing h.toDirectoryOpen stat hc
    obtain ⟨u, hu⟩ : ∃ u, K.openUnion fd = u := ⟨_, rfl⟩
    have hself := hrun u (K.directoryItemsAt u)
    rw [setDirectoryItems_self] at hself
    refine ⟨⟨-einvarg, _, hself, by decide, hmem, hs.descriptors⟩, fun v => ?_⟩
    dsimp only
    rw [hself, hu, hrun u v]
    simp [Fs.setDirectoryItems]

/-- The calls keep the directory open as long as they are refused. -/
theorem step_directory {s : Fs × FileStat} (h : DirectoryAtStart s.1 fd) {c : DescriptorCall}
    (hc : c.ReadsNothing) : DirectoryAtStart (c.step fd s).1 fd := by
  obtain ⟨K', hs, -, hrun⟩ := run_readsNothing h.toDirectoryOpen s.2 hc
  have hself := hrun 0 (s.1.directoryItemsAt 0)
  rw [setDirectoryItems_self] at hself
  unfold DescriptorCall.step
  rw [hself]
  exact h.same ⟨hs.descriptor, hs.files, hs.descriptors, hs.items⟩

/-! ## Opening a directory -/

/-- `fat16_open` returns a descriptor at the start of its item, or an error code. -/
theorem fat16Open_pos {path p : Nat} {mode : FileMode} (he : fat16Open K path mode = some (p, K'))
    (hok : iserr p = false) : (K'.fatDescriptorAt p).pos = 0 := by
  unfold fat16Open at he
  dsimp only at he
  split at he
  · cases he
    exact absurd hok (by decide +kernel)
  · split at he
    · cases he
      exact absurd hok (by decide +kernel)
    · split at he
      · cases he
      · split at he
        · cases he
          exact absurd hok (by decide +kernel)
        · cases he
          unfold Fs.setFatDescriptor
          dsimp only
          rw [Function.update_self]

/-- The new descriptor is in the table, under its number, and the other descriptors stay. -/
theorem newDescriptor_loop_entry : ∀ (n i : Nat) (K : Fs) {res : Int} {desc : Nat} {K' : Fs},
    fileNewDescriptor.loop n i K = (res, desc, K') → 0 ≤ res →
    K'.fatDescriptorAt = K.fatDescriptorAt ∧ ∃ j, (K'.fileDescriptorAt desc).index = j + 1 ∧
      K'.fileDescriptors j = desc
  | 0, _, _, _, _, _, he, hres => by
    cases he
    exact absurd hres (by decide)
  | n + 1, i, K, res, desc, K', he, hres => by
    unfold fileNewDescriptor.loop at he
    dsimp only at he
    split at he
    · cases he
      refine ⟨rfl, i, ?_, ?_⟩
      · unfold Fs.setFileDescriptors Fs.setFileDescriptor
        dsimp only
        rw [Function.update_self]
      · exact Function.update_self _ _ _
    · exact newDescriptor_loop_entry n (i + 1) K he hres

theorem open_pos {rootPath : Nat} {mode : FileMode} (he : fopen.open K rootPath mode = some (fd, K'))
    (hdesc : K'.fileGetDescriptor fd ≠ 0) : (K'.fatDescriptorAt (K'.openPriv fd)).pos = 0 := by
  have hfd : fd ≠ 0 := fun h0 => hdesc (if_pos (.inl (by omega)))
  unfold fopen.open at he
  dsimp only at he
  split at he
  · cases he
  · rename_i p K₁ hopen
    split at he
    · exact absurd (Leak.out_zero he) hfd
    · rename_i hok
      have hpos := fat16Open_pos hopen (Bool.not_eq_true _ ▸ hok)
      obtain ⟨res, desc, K₂, hnew⟩ : ∃ res desc K₂, fileNewDescriptor K₁ = (res, desc, K₂) :=
        ⟨_, _, _, rfl⟩
      rw [hnew] at he
      dsimp only at he
      split at he
      · exact absurd (Leak.out_zero he) hfd
      · rename_i hres
        obtain ⟨hdescriptors, j, hindex, hcell⟩ :=
          newDescriptor_loop_entry _ _ _ hnew (Int.not_lt.1 hres)
        obtain ⟨K₃, hK₃⟩ : ∃ K₃, (K₂.follow desc).setFileDescriptor desc
          { (K₂.follow desc).fileDescriptorAt desc with priv := p } = K₃ := ⟨_, rfl⟩
        rw [hK₃] at he
        have hat : K₃.fileDescriptorAt desc = { K₂.fileDescriptorAt desc with priv := p } := by
          rw [← hK₃]
          exact Function.update_self _ _ _
        have hsame : K₃.fileDescriptors = K₂.fileDescriptors ∧
            K₃.fatDescriptorAt = K₂.fatDescriptorAt := by
          rw [← hK₃]
          exact ⟨rfl, rfl⟩
        obtain ⟨hnumber, rfl⟩ := Prod.mk.inj (Option.some.inj he)
        -- the number leads back to the new descriptor
        have hlookup : K₃.fileGetDescriptor fd = desc := by
          have hnat : (fd - 1).toNat = j := by
            rw [← hnumber, hat]
            dsimp only
            rw [hindex]
            omega
          unfold Fs.fileGetDescriptor at hdesc ⊢
          split at hdesc
          · exact absurd rfl hdesc
          · rename_i hin
            rw [if_neg hin, hnat, hsame.1]
            exact hcell
        unfold Fs.openPriv
        rw [hlookup, hat, hsame.2, hdescriptors]
        exact hpos

/-- The position of an opened file or directory, where its number leads to its descriptor. -/
theorem fopen_pos {filename modeStr : List UInt8} (he : fopen K filename modeStr = some (fd, K'))
    (hdesc : K'.fileGetDescriptor fd ≠ 0) : (K'.fatDescriptorAt (K'.openPriv fd)).pos = 0 := by
  have hfd : fd ≠ 0 := fun h0 => hdesc (if_pos (.inl (by omega)))
  unfold fopen at he
  dsimp only at he
  split at he
  · exact absurd (Leak.out_zero he) hfd
  · split at he
    · exact absurd (Leak.out_zero he) hfd
    · split at he
      · exact absurd (Leak.out_zero he) hfd
      · split at he
        · exact absurd (Leak.out_zero he) hfd
        · split at he
          · exact absurd (Leak.out_zero he) hfd
          · exact open_pos he hdesc

/-- **Operations on an opened directory** are refused if and only if they are not reads of some bytes:
whatever is called on it, and however often. -/
theorem directory_calls_refused_iff {filename modeStr : List UInt8}
    (he : fopen K filename modeStr = some (fd, K')) (hdir : DirectoryOpen K' fd) (stat : FileStat)
    (calls : List DescriptorCall) :
    Run.Steps (DescriptorCall.step fd) (CallRefused fd) (K', stat) calls ↔
      Run.Steps (DescriptorCall.step fd) (fun _ c => c.ReadsNothing) (K', stat) calls := by
  have hstart : DirectoryAtStart K' fd := ⟨hdir, fopen_pos he hdir.descriptor⟩
  have hall : Run.Steps (DescriptorCall.step fd) (fun _ _ => True) (K', stat) calls :=
    Run.steps_of_forall fun _ _ => trivial
  exact Run.steps_iff (I := fun s => DirectoryAtStart s.1 fd) (fun s c h _ hc => step_directory h hc) 
    (fun s c h _ => refused_iff h s.2 c) hstart hall

end

/-- A subdirectory named "D", from cluster 2 on. -/
def directoryD : FatDirectoryItem where
  filename := 0x44 :: List.replicate 7 0x20
  ext := List.replicate 3 0x20
  itemAttribute := fatFileSubdirectory
  high16BitsFirstCluster := 0
  low16BitsFirstCluser := 2

/-- The root directory has that entry, and the subdirectory has one of its own. All other blocks are zero,
also as entries. -/
def subdirectoryFs : Fs := { rootFs [directoryD] with
  disk := { image := fun a => if a = 1536 then 0x42 else if a = 512 then 0x43 else 0 }
  directoryItemsAt := fun a i => if a = 0x01000000 ∧ i = 0 then directoryD else clusterEntry 0 0 }

/-- `0:/D` -/
def pathD : List UInt8 := [0x30, 0x3A, 0x2F, 0x44]

/-- The subdirectory is opened, and then one byte is read. -/
theorem subdirectoryFs_open : ∃ K K', fopen subdirectoryFs pathD modeR = some (1, K) ∧
    DirectoryOpen K 1 ∧ K.fread 0x2000 1 1 1 = some (1, K') ∧ K'.mem 0x2000 = 0x43 ∧
    K.mem 0x2000 = 0 ∧ (K'.fatDescriptorAt (K.openPriv 1)).pos = 1 := by
  have hrun : (fopen subdirectoryFs pathD modeR).bind (fun r => (r.2.fread 0x2000 1 1 1).map fun r' =>
      decide (r.1 = 1 ∧ r.2.fileGetDescriptor 1 ≠ 0 ∧
        (r.2.fatItemAt (r.2.openItem 1)).type = .directory ∧ r'.1 = 1 ∧ r'.2.mem 0x2000 = 0x43 ∧
        r.2.mem 0x2000 = 0 ∧ (r'.2.fatDescriptorAt (r.2.openPriv 1)).pos = 1)) = some true := by
    decide +kernel
  obtain ⟨⟨fd, K⟩, he, hread⟩ := Option.bind_eq_some_iff.1 hrun
  obtain ⟨⟨res, K'⟩, hread, hr⟩ := Option.map_eq_some_iff.1 hread
  obtain ⟨rfl, hdesc, htype, rfl, hmem, hbefore, hpos⟩ := of_decide_eq_true hr
  exact ⟨K, K', he, ⟨hdesc, htype⟩, hread, hmem, hbefore, hpos⟩

theorem directory_calls_refused_iff_D : ∃ K, fopen subdirectoryFs pathD modeR = some (1, K) ∧
    Run.Steps (DescriptorCall.step 1) (CallRefused 1) (K, ⟨0, 0⟩)
      [.fstat, .fseek 4 0, .fread 0x2000 0 8] := by
  obtain ⟨K, -, he, hdir, -⟩ := subdirectoryFs_open
  refine ⟨K, he, (directory_calls_refused_iff he hdir ⟨0, 0⟩ _).2 ?_⟩
  exact ⟨trivial, trivial, .inl rfl, trivial⟩

/-- A byte of cluster 0 is read from a directory. -/
theorem directory_read : ∃ K K', fopen subdirectoryFs pathD modeR = some (1, K) ∧
    DirectoryOpen K 1 ∧ ¬ CallRefused 1 (K, ⟨0, 0⟩) (.fread 0x2000 1 1) ∧
    K.fread 0x2000 1 1 1 = some (1, K') ∧ K'.mem 0x2000 ≠ K.mem 0x2000 ∧
    (K'.fatDescriptorAt (K.openPriv 1)).pos ≠ (K.fatDescriptorAt (K.openPriv 1)).pos := by
  obtain ⟨K, K', he, hdir, hread, hmem, hbefore, hpos⟩ := subdirectoryFs_open
  refine ⟨K, K', he, hdir, fun hr => ?_, hread, ?_, ?_⟩
  · obtain ⟨res, K₁, hrun, hneg, -⟩ := hr.fails
    rw [run_fread, hread] at hrun
    simp only [Option.map_some, Option.some.injEq, Prod.mk.injEq] at hrun
    rw [← hrun.1] at hneg
    exact absurd hneg (by decide)
  · rw [hmem, hbefore]
    decide
  · rw [hpos, fopen_pos he hdir.descriptor]
    decide

end Pandora
