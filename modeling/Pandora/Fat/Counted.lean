import Pandora.Fat.Loaded

/-!
# The count of the root directory (`fs/fat/fat16.c`)

`fat16_get_root_directory` allocates and reads as many entries as the boot record says, but it stores the
count of a scan of the disk that ends at a zero byte, wherever that is. `scannedItem` is what the
scan reads, at positions that wrap as an `int` does; the count is that of the entries in use up to the
first that begins with 0x00 (`totalItems_scanned`). A search stays in the array if and only if no more of
them are in use than the boot record says (`root_search_inside_iff`).
-/

namespace Pandora

open ByteMem

/-! ## The scan -/

/-- The entry that is read from the disk stream at the position `start + 32 * i` of an `int`. -/
def scannedItem (disk : Disk) (start : Int) (i : Nat) : FatDirectoryItem :=
  fatDirectoryItem (diskstreamerRead disk ⟨Word.int (start + 32 * i)⟩ 0 sizeofFatDirectoryItem
    fun _ => 0).2.2 0

section

variable {disk : Disk} {start : Int}

/-- A read moves the stream on by what was read. -/
theorem diskstreamerRead_next (disk : Disk) (stream : DiskStream) (out : Nat) (total : Int) (m : Mem) :
    (diskstreamerRead disk stream out total m).2.1 = ⟨Word.int (stream.pos + total)⟩ := by
  fun_induction diskstreamerRead disk stream out total m with
  | case1 stream out total m sector res buf hblock hres =>
    have : res = 0 := congrArg Prod.fst hblock.symm
    omega
  | case2 stream out total m sector offset totalToRead res buf hblock hres m next hmore ih =>
    have hnext : next.pos = Word.int (stream.pos + totalToRead) := rfl
    rw [ih, hnext, Word.int_int_add]
    congr 2
    omega
  | case3 stream out total m sector offset totalToRead res buf hblock hres m next hlast =>
    have hread : totalToRead = total := dif_neg hlast
    exact congrArg (fun n => (⟨Word.int (stream.pos + n)⟩ : DiskStream)) hread

theorem scannedItem_next (disk : Disk) (start : Int) (i : Nat) :
    scannedItem disk (start + 32) i = scannedItem disk start (i + 1) := by
  unfold scannedItem
  rw [show start + 32 + 32 * (i : Int) = start + 32 * ((i + 1 : Nat) : Int) by omega]

/-- Below `2 ^ 31` the entries are those of the image. -/
theorem scannedItem_eq {pos i : Nat} (h : pos + 32 * (i + 1) ≤ 2 ^ 31) :
    scannedItem disk pos i = directoryItems disk.image pos i := by
  have hread := diskstreamerRead_eq disk 32 (pos + 32 * i) 0 (fun _ => 0) (by omega)
  have hitem := fatDirectoryItem_writeBytes (fun _ => 0) disk.image 0 (pos + 32 * i) 32 0 (by decide)
  unfold directoryItems at hitem
  rw [Nat.mul_zero, Nat.add_zero, Nat.add_zero] at hitem
  unfold scannedItem directoryItems
  rw [show (pos : Int) + 32 * (i : Int) = ((pos + 32 * i : Nat) : Int) by omega,
    Word.int_of_mem (by omega) (by omega)]
  have hsize : ((sizeofFatDirectoryItem : Nat) : Int) = (32 : Nat) := rfl
  rw [hsize, hread]
  exact hitem

theorem EndsAt.next (h : EndsAt (scannedItem disk (start + 32)) n)
    (h0 : (scannedItem disk start 0).mark ≠ 0) : EndsAt (scannedItem disk start) (n + 1) where
  before := fun i hi => by
    cases i with
    | zero => exact h0
    | succ i =>
      rw [← scannedItem_next]
      exact h.before i (by omega)
  mark := by
    rw [← scannedItem_next]
    exact h.mark

theorem liveItems_scanned (disk : Disk) (start : Int) (n : Nat) :
    liveItems (scannedItem disk start) (n + 1) =
      liveItems (scannedItem disk (start + 32)) n + if (scannedItem disk start 0).Live then 1 else 0 := by
  unfold liveItems
  rw [Nat.count_succ']
  simp only [scannedItem_next]

/-- A count that ends is that of the entries in use before the first that begins with 0x00. -/
theorem totalItems_loop_scanned {n : Nat} {i : Int} {r : Int × DiskStream}
    (h : fat16GetTotalItemsForDirectory.loop disk n ⟨Word.int start⟩ i = some r) :
    ∃ L, EndsAt (scannedItem disk start) L ∧
      r.1 = i + (liveItems (scannedItem disk start) L : Nat) := by
  induction n generalizing start i with
  | zero => cases h
  | succ n ih =>
    unfold fat16GetTotalItemsForDirectory.loop at h
    obtain ⟨⟨res, stream, m⟩, hread⟩ : ∃ r, diskstreamerRead disk ⟨Word.int start⟩ 0
      sizeofFatDirectoryItem (fun _ => 0) = r := ⟨_, rfl⟩
    have hstatus := diskstreamerRead_status disk ⟨Word.int start⟩ 0 sizeofFatDirectoryItem fun _ => 0
    have hnext := diskstreamerRead_next disk ⟨Word.int start⟩ 0 sizeofFatDirectoryItem fun _ => 0
    have hitem : scannedItem disk start 0 = fatDirectoryItem m 0 := by
      unfold scannedItem
      rw [Int.natCast_zero, Int.mul_zero, Int.add_zero, hread]
    rw [hread] at h hstatus hnext
    dsimp only at h hstatus hnext
    rw [Word.int_int_add] at hnext
    have hmark : (fatDirectoryItem m 0).filename.headD 0 = (scannedItem disk start 0).mark := by
      rw [hitem]
      rfl
    rw [hstatus, if_neg (not_not_intro rfl), hmark, hnext] at h
    by_cases h0 : (scannedItem disk start 0).mark = 0
    · rw [if_pos h0] at h
      cases h
      refine ⟨0, ⟨fun i hi => absurd hi (Nat.not_lt_zero i), h0⟩, ?_⟩
      simp [liveItems]
    rw [if_neg h0] at h
    have hsize : ((sizeofFatDirectoryItem : Nat) : Int) = 32 := rfl
    rw [hsize] at h
    by_cases hlive : (scannedItem disk start 0).Live
    · rw [if_neg hlive] at h
      obtain ⟨L, hends, hr⟩ := ih h
      refine ⟨L + 1, hends.next h0, ?_⟩
      rw [hr, liveItems_scanned, if_pos hlive]
      omega
    · have hdead : (scannedItem disk start 0).mark = 0xE5 := not_not.1 hlive
      rw [if_pos hdead] at h
      obtain ⟨L, hends, hr⟩ := ih h
      refine ⟨L + 1, hends.next h0, ?_⟩
      rw [hr, liveItems_scanned, if_neg hlive, Nat.add_zero]

theorem totalItems_scanned {K K' : Fs} {sector : Nat} {total : Int}
    (h : fat16GetTotalItemsForDirectory K sector = some (total, K')) :
    ∃ L, EndsAt (scannedItem K.disk (sector * K.disk.sectorSize)) L ∧
      total = (liveItems (scannedItem K.disk (sector * K.disk.sectorSize)) L : Nat) := by
  unfold fat16GetTotalItemsForDirectory at h
  dsimp only [diskstreamerSeek] at h
  rw [if_neg (show ¬ (0 : Int) ≠ allOk by decide)] at h
  obtain ⟨r, hloop⟩ : ∃ r, fat16GetTotalItemsForDirectory.loop K.disk
      ((2 ^ 31 - Word.int (sector * K.disk.sectorSize)) / 32).toNat
      ⟨Word.int (sector * K.disk.sectorSize)⟩ 0 = r := ⟨_, rfl⟩
  rw [hloop] at h
  cases r with
  | none => cases h
  | some r =>
    obtain ⟨L, hends, hr⟩ := totalItems_loop_scanned hloop
    cases h
    exact ⟨L, hends, by rw [hr, Int.zero_add]⟩

end

/-! ## The root directory -/

/-- The entries from the first sector of the root directory on, as the scan reads them. -/
def Fs.rootItems (K : Fs) : Nat → FatDirectoryItem :=
  scannedItem K.disk
    ((K.priv.fatCopies * K.priv.sectorsPerFat + K.priv.reservedSectors : Nat) * K.disk.sectorSize)

/-- The count is not above the number of entries in the boot record, and each entry `directory->item[i]`
that `fat16_find_item_in_directory` visits ends in the array that was allocated and read. -/
structure SearchInside (K : Fs) (directory : FatDirectory) : Prop where
  count : directory.total ≤ K.priv.rootDirEntries
  visited : ∀ i < directory.total.toNat,
    sizeofFatDirectoryItem * i + sizeofFatDirectoryItem ≤ K.priv.rootDirEntries * sizeofFatDirectoryItem

section

variable {K K' : Fs} {directory : FatDirectory}

/-- The count and the last sector that are stored. -/
theorem rootDirectory_fields (h : fat16GetRootDirectory K = some (allOk, directory, K')) :
    (∃ L, EndsAt K.rootItems L ∧ directory.total = (liveItems K.rootItems L : Nat)) ∧
      directory.endingSectorPos =
        (K.priv.fatCopies * K.priv.sectorsPerFat + K.priv.reservedSectors : Nat) +
          if ((K.priv.rootDirEntries * sizeofFatDirectoryItem : Nat) : Int).tmod K.disk.sectorSize ≠ 0
          then ((K.priv.rootDirEntries * sizeofFatDirectoryItem : Nat) : Int).tdiv K.disk.sectorSize + 1
          else ((K.priv.rootDirEntries * sizeofFatDirectoryItem : Nat) : Int).tdiv
            K.disk.sectorSize := by
  unfold fat16GetRootDirectory at h
  dsimp only at h
  obtain ⟨r, hcount⟩ : ∃ r, fat16GetTotalItemsForDirectory K
    (K.priv.fatCopies * K.priv.sectorsPerFat + K.priv.reservedSectors) = r := ⟨_, rfl⟩
  rw [hcount] at h
  cases r with
  | none => cases h
  | some r =>
    obtain ⟨total, K₁⟩ := r
    obtain ⟨L, hends, htotal⟩ := totalItems_scanned hcount
    dsimp only at h
    split at h
    · cases h
    · unfold fat16GetRootDirectory.read at h
      dsimp only [diskstreamerSeek] at h
      rw [if_neg (show ¬ (0 : Int) ≠ allOk by decide), diskstreamerRead_status,
        if_neg (not_not_intro rfl)] at h
      cases h
      exact ⟨⟨L, hends, htotal⟩, rfl⟩

/-- **A search of the root directory stays in the array** that was loaded if and only if no more entries
are in use, up to the first that begins with 0x00, than the boot record says. -/
theorem root_search_inside_iff (h : fat16GetRootDirectory K = some (allOk, directory, K')) :
    SearchInside K directory ↔
      ∀ L, EndsAt K.rootItems L → liveItems K.rootItems L ≤ K.priv.rootDirEntries := by
  obtain ⟨⟨L, hends, htotal⟩, -⟩ := rootDirectory_fields h
  constructor
  · rintro ⟨hcount, -⟩ L' hends'
    obtain rfl := hends.unique hends'
    omega
  · intro hle
    have := hle L hends
    refine ⟨by omega, fun i hi => ?_⟩
    unfold sizeofFatDirectoryItem
    omega

end

/-! ## Two root directories -/

/-- The root directory of this disk is loaded. -/
theorem letterFs_rootDirectory {marks : List UInt8} {T : Nat}
    (hends : EndsAt (directoryItems (letterDisk marks).image 1024) T) (hT : T < 1024) :
    ∃ directory K', fat16GetRootDirectory (letterFs marks) = some (allOk, directory, K') ∧
      directory.total = (liveItems (directoryItems (letterDisk marks).image 1024) T : Nat) := by
  have hpos : (letterFs marks).priv.rootPos = 1024 := show letterVolume.rootPos = 1024 by decide
  obtain ⟨directory, K', he, hloaded, -⟩ := rootDirectory_counted (K := letterFs marks) (T := T)
    bootKmem_kernel (letterFs_closed _) (letterFs_mounted _)
    (show 1 ≤ letterVolume.rootDirEntries by decide)
    (show letterVolume.rootPos + 32 * letterVolume.rootDirEntries ≤ 2 ^ 31 by decide)
    (by rw [hpos]; exact hends) (by rw [hpos]; omega)
    fun _ _ _ he => (room_rootDirectory (K := letterFs marks) bootKmem_room (by decide)
      (show 1 ≤ letterVolume.rootDirEntries by decide)
      (show letterVolume.rootDirEntries ≤ 128 by decide) he).denied
  rw [hpos] at hloaded
  exact ⟨directory, K', he, hloaded.total⟩

/-- One file in a root directory of sixteen entries. -/
theorem root_search_inside_iff_letter :
    ∃ directory K', fat16GetRootDirectory (letterFs [0x41]) = some (allOk, directory, K') ∧
      SearchInside (letterFs [0x41]) directory := by
  obtain ⟨directory, K', he, -⟩ := letterFs_rootDirectory letterFs_ends.1 (show 1 < 1024 by decide)
  refine ⟨directory, K', he, (root_search_inside_iff he).2 fun L hends => ?_⟩
  have hsecond : ((letterFs [0x41]).rootItems 1).mark = 0 := by
    have heq : (letterFs [0x41]).rootItems 1 = directoryItems (letterDisk [0x41]).image 1024 1 :=
      scannedItem_eq (show 1024 + 32 * (1 + 1) ≤ 2 ^ 31 by decide)
    rw [heq]
    decide
  have hL : L ≤ 1 := Nat.le_of_not_lt fun hlt => hends.before 1 hlt hsecond
  have hlive := liveItems_le (letterFs [0x41]).rootItems L
  exact (hlive.trans hL).trans (by decide)

theorem directoryItems_mark (m : Mem) (a i : Nat) : (directoryItems m a i).mark = m (a + 32 * i) := rfl

/-- Sixteen entries fill a sector. -/
theorem letterDisk_full {i : Nat} (hi : i < 32) :
    (directoryItems (letterDisk (List.replicate 16 0x41)).image 1024 i).mark = 0x41 := by
  rw [directoryItems_mark]
  unfold letterDisk
  dsimp only
  rw [List.length_replicate, if_pos ⟨by omega, by omega⟩, if_pos (by omega), List.getD_replicate]
  omega

/-- All sixteen entries are in use, and so are those of the cluster behind them. -/
theorem root_search_leaves_full :
    ∃ directory K', fat16GetRootDirectory (letterFs (List.replicate 16 0x41)) =
      some (allOk, directory, K') ∧ ¬ SearchInside (letterFs (List.replicate 16 0x41)) directory := by
  have hends : EndsAt (directoryItems (letterDisk (List.replicate 16 0x41)).image 1024) 32 := by
    refine ⟨fun i hi => ?_, rfl⟩
    rw [letterDisk_full hi]
    decide
  have hlive : liveItems (directoryItems (letterDisk (List.replicate 16 0x41)).image 1024) 32 = 32 := by
    refine Nat.count_iff_forall.2 fun i hi => ?_
    unfold FatDirectoryItem.Live
    rw [letterDisk_full hi]
    decide
  obtain ⟨directory, K', he, htotal⟩ := letterFs_rootDirectory hends (by decide)
  refine ⟨directory, K', he, fun hin => ?_⟩
  have hcount := hin.count
  rw [htotal, hlive] at hcount
  exact absurd hcount (by decide)

end Pandora
