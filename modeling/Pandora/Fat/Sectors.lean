import Pandora.Fat.Counted

/-!
# The sectors of a cluster (`fs/fat/fat16.c`)

`fat16_read_internal_from_stream` turns the sector of a cluster into a position in bytes, an `int`, and
`diskstreamer_read` divides it again. Sector numbers of a FAT16 volume are below `2 ^ 25`, positions
below `2 ^ 34`: the sector asked for is the one meant in the first `2 ^ 31` bytes of the disk
(`cluster_sector_asked_iff`), and behind them it never is.
-/

namespace Pandora

/-! ## The sector asked for -/

/-- The sector that a read from the stream asks the driver for first. -/
def DiskStream.sector (stream : DiskStream) : Nat := Word.ofInt (stream.pos.tdiv 512)

/-- What is read in the first round is in that sector. -/
theorem diskstreamerRead_asks {disk disk' : Disk} {stream : DiskStream} {out : Nat} {total : Int}
    {m : ByteMem.Mem} (h : stream.pos.tmod 512 + total < 512)
    (hs : diskReadBlock disk stream.sector = diskReadBlock disk' stream.sector) :
    diskstreamerRead disk stream out total m = diskstreamerRead disk' stream out total m := by
  unfold DiskStream.sector at hs
  unfold diskstreamerRead
  dsimp only
  have hno : ¬ stream.pos.tmod 512 + total ≥ 512 := by omega
  simp only [hs, if_neg hno]

/-- `starting_pos` of `fat16_read_internal_from_stream` -/
def fat16StartingPos (disk : Disk) (priv : FatPrivate) (clusterToUse offset : Int) : Int :=
  Word.int (fat16ClusterToSector priv clusterToUse * disk.sectorSize +
    offset.tmod (priv.sectorsPerCluster * disk.sectorSize))

/-- The round that reads from the cluster `c` reads `read` bytes at that position. -/
theorem readFromStream_asks {disk : Disk} {priv priv' : FatPrivate} {stream : DiskStream}
    {cluster offset total c read : Int} {fuel out : Nat} {m : ByteMem.Mem}
    (h : fat16GetClusterForOffset disk priv cluster offset = (c, priv')) (hc : 0 ≤ c)
    (hread : (if total > priv.sectorsPerCluster * disk.sectorSize then
      priv.sectorsPerCluster * disk.sectorSize else total) = read) :
    fat16ReadInternalFromStream disk (fuel + 1) priv stream cluster offset total out m =
      let r := diskstreamerRead disk ⟨fat16StartingPos disk priv' c offset⟩ out read m
      if r.1 ≠ allOk then some (r.1, priv', r.2)
      else if total - read > 0 then
        fat16ReadInternalFromStream disk fuel priv' r.2.1 cluster (Word.int (offset + read))
          (total - read) (out + read.toNat) r.2.2
      else some (r.1, priv', r.2) := by
  have hsame : priv'.sectorsPerCluster = priv.sectorsPerCluster := by
    have hv := (clusterForOffset_sameVolume disk (.refl priv) cluster offset).2
    rw [h] at hv
    exact hv.sectorsPerCluster
  rw [fat16ReadInternalFromStream]
  dsimp only [diskstreamerSeek]
  rw [h, hread]
  dsimp only
  rw [if_neg (show ¬ c < 0 by omega), if_neg (show ¬ (0 : Int) ≠ allOk by decide)]
  unfold fat16StartingPos
  rw [hsame]

/-! ## Geometry -/

/-- The first sector behind the root directory. -/
def FatVolume.rootEnd (priv : FatVolume) : Nat :=
  priv.fatCopies * priv.sectorsPerFat + priv.reservedSectors +
    (sizeofFatDirectoryItem * priv.rootDirEntries + 511) / 512

/-- A boot record of FAT16: its fields have their sizes, a cluster has sectors, and the root directory
has been read. -/
structure FatVolume.Geometry (priv : FatVolume) : Prop where
  sectorsPerCluster : 1 ≤ priv.sectorsPerCluster ∧ priv.sectorsPerCluster ≤ 128
  reservedSectors : priv.reservedSectors < 2 ^ 16
  fatCopies : priv.fatCopies < 2 ^ 8
  sectorsPerFat : priv.sectorsPerFat < 2 ^ 16
  rootDirEntries : priv.rootDirEntries < 2 ^ 16
  endingSectorPos : priv.endingSectorPos = priv.rootEnd

/-- The end of the root directory is where `fat16_get_root_directory` says. -/
theorem rootDirectory_end {K K' : Fs} {directory : FatDirectory}
    (h : fat16GetRootDirectory K = some (allOk, directory, K')) (hdisk : K.disk.sectorSize = 512) :
    directory.endingSectorPos = K.priv.rootEnd := by
  obtain ⟨-, hend⟩ := rootDirectory_fields h
  obtain ⟨size, hsize⟩ : ∃ size, K.priv.rootDirEntries * sizeofFatDirectoryItem = size := ⟨_, rfl⟩
  have hdiv : (size : Int).tdiv 512 = (size / 512 : Nat) := rfl
  have hmod : (size : Int).tmod 512 = (size % 512 : Nat) := rfl
  rw [hend, hdisk, hsize, hdiv, hmod]
  unfold FatVolume.rootEnd
  rw [Nat.mul_comm sizeofFatDirectoryItem, hsize]
  split <;> omega

/-- The first sector of a cluster. -/
def FatVolume.sectorOf (priv : FatVolume) (cluster : Nat) : Nat :=
  priv.rootEnd + (cluster - 2) * priv.sectorsPerCluster

section

variable {priv : FatVolume} {disk : Disk} {cluster offset : Nat}

theorem FatVolume.Geometry.sectorOf_lt (h : priv.Geometry) (hc : cluster ≤ 0xFFEF) :
    priv.sectorOf cluster < 2 ^ 25 := by
  have hfat : priv.fatCopies * priv.sectorsPerFat ≤ 255 * 65535 :=
    Nat.mul_le_mul (Nat.le_of_lt_succ h.fatCopies) (Nat.le_of_lt_succ h.sectorsPerFat)
  have hdata : (cluster - 2) * priv.sectorsPerCluster ≤ 0xFFED * 128 :=
    Nat.mul_le_mul (by omega) h.sectorsPerCluster.2
  have hroot := h.rootDirEntries
  have hreserved := h.reservedSectors
  unfold FatVolume.sectorOf FatVolume.rootEnd sizeofFatDirectoryItem
  omega

theorem FatVolume.Geometry.clusterToSector (h : priv.Geometry) (hc : cluster ≤ 0xFFEF)
    (h2 : 2 ≤ cluster) : fat16ClusterToSector priv.toFatPrivate cluster = priv.sectorOf cluster := by
  have hlt := h.sectorOf_lt hc
  have hcast : priv.endingSectorPos + ((cluster : Int) - 2) * priv.sectorsPerCluster =
      (priv.sectorOf cluster : Nat) := by
    rw [h.endingSectorPos]
    unfold FatVolume.sectorOf
    rw [Int.natCast_add, Int.natCast_mul, Int.natCast_sub h2]
    rfl
  unfold fat16ClusterToSector
  rw [hcast, Word.int_of_mem (by omega) (by omega)]

/-- Behind `2 ^ 31` bytes the sector asked for is not the one meant. -/
theorem sector_wraps {z : Nat} (h : 2 ^ 31 ≤ z) (h' : z < 2 ^ 35) :
    DiskStream.sector ⟨Word.int z⟩ ≠ z / 512 := by
  unfold DiskStream.sector
  have hw : Word.ofInt z = z % 2 ^ 32 := Word.ofInt_natCast_mod z
  rcases Nat.lt_or_ge (z % 2 ^ 32) (2 ^ 31) with hlow | hhigh
  · -- the position is another one of the first 2 ^ 31 bytes
    have hint : Word.int z = (z % 2 ^ 32 : Nat) := by
      unfold Word.int
      rw [hw, Word.toInt_of_lt hlow]
    rw [hint]
    show Word.ofInt (z % 2 ^ 32 / 512 : Nat) ≠ _
    rw [Word.ofInt_natCast (by omega)]
    omega
  · -- it is negative, and so is the sector, but for the last 511 bytes
    have hint : Word.int z = -((2 ^ 32 - z % 2 ^ 32 : Nat) : Int) := by
      unfold Word.int
      rw [hw, Word.toInt_of_ge hhigh (Nat.mod_lt _ (by decide))]
      omega
    obtain ⟨n, hn⟩ : ∃ n, 2 ^ 32 - z % 2 ^ 32 = n := ⟨_, rfl⟩
    have hdiv : (-(n : Int)).tdiv 512 = -((n / 512 : Nat) : Int) := Int.neg_tdiv _ _
    rw [hint, hn, hdiv]
    rcases Nat.eq_zero_or_pos (n / 512) with hzero | hpos
    · rw [hzero, show -((0 : Nat) : Int) = (0 : Nat) from rfl, Word.ofInt_natCast (by decide)]
      omega
    · have := Word.ofInt_neg (show -((n / 512 : Nat) : Int) < 0 by omega) (by omega)
      omega

theorem sector_exact {z : Nat} (h : z < 2 ^ 31) : DiskStream.sector ⟨Word.int z⟩ = z / 512 := by
  unfold DiskStream.sector
  rw [Word.int_of_mem (by omega) (by omega)]
  show Word.ofInt (z / 512 : Nat) = _
  exact Word.ofInt_natCast (by omega)

/-- **The address of a cluster survives the arithmetic** if and only if the sector is among the first
`2 ^ 22`. -/
theorem cluster_sector_asked_iff (h : priv.Geometry) (hdisk : disk.sectorSize = 512)
    (h2 : 2 ≤ cluster) (hc : cluster ≤ 0xFFEF) :
    DiskStream.sector ⟨fat16StartingPos disk priv.toFatPrivate cluster offset⟩ =
        priv.sectorOf cluster + offset % (priv.sectorsPerCluster * 512) / 512 ↔
      priv.sectorOf cluster + offset % (priv.sectorsPerCluster * 512) / 512 < 2 ^ 22 := by
  have hlt := h.sectorOf_lt hc
  obtain ⟨hspc, hspc'⟩ := h.sectorsPerCluster
  obtain ⟨within, hin⟩ : ∃ within, offset % (priv.sectorsPerCluster * 512) = within := ⟨_, rfl⟩
  have hwithin : within < 2 ^ 16 := by
    rw [← hin]
    exact (Nat.mod_lt _ (by omega)).trans_le (by omega)
  have hpos : fat16StartingPos disk priv.toFatPrivate cluster offset =
      Word.int (512 * priv.sectorOf cluster + within : Nat) := by
    have hmod : (offset : Int).tmod (priv.sectorsPerCluster * 512) = (within : Nat) := by
      rw [← hin]
      rfl
    unfold fat16StartingPos
    rw [h.clusterToSector hc h2, hdisk, hmod]
    congr 1
    omega
  rw [hpos, hin]
  have hdiv : (512 * priv.sectorOf cluster + within) / 512 = priv.sectorOf cluster + within / 512 :=
    Nat.mul_add_div (by decide) _ _
  constructor
  · intro hasked
    rcases Nat.lt_or_ge (512 * priv.sectorOf cluster + within) (2 ^ 31) with hsmall | hbig
    · omega
    · exact absurd (hasked.trans hdiv.symm) (sector_wraps hbig (by omega))
  · intro hlow
    rw [← hdiv]
    exact sector_exact (by omega)

end

/-- The volume of the boot record. -/
def bootVolume : FatVolume where
  reservedSectors := 200
  sectorsPerCluster := 0x80
  endingSectorPos := 716
  rootDirEntries := 0x40
  fatCopies := 2
  sectorsPerFat := 0x100

theorem bootVolume_geometry : bootVolume.Geometry :=
  ⟨by decide, by decide, by decide, by decide, by decide, rfl⟩

theorem cluster_sector_asked_first :
    DiskStream.sector ⟨fat16StartingPos ⟨fun _ => 0, 512⟩ bootVolume.toFatPrivate (2 : Nat) (0 : Nat)⟩ =
        bootVolume.sectorOf 2 + 0 % (bootVolume.sectorsPerCluster * 512) / 512 ↔
      bootVolume.sectorOf 2 + 0 % (bootVolume.sectorsPerCluster * 512) / 512 < 2 ^ 22 :=
  cluster_sector_asked_iff bootVolume_geometry rfl (by decide) (by decide)

/-- Cluster 0x7FFD of that volume is inside its 0x773594 sectors, and another sector is asked for. -/
theorem cluster_sector_asked_wraps :
    bootVolume.Geometry ∧ bootVolume.sectorOf 0x7FFD + bootVolume.sectorsPerCluster ≤ 0x773594 ∧
      DiskStream.sector ⟨fat16StartingPos ⟨fun _ => 0, 512⟩ bootVolume.toFatPrivate (0x7FFD : Nat)
        (0 : Nat)⟩ ≠ bootVolume.sectorOf 0x7FFD := by
  refine ⟨bootVolume_geometry, by decide, fun hasked => ?_⟩
  have hpos : fat16StartingPos ⟨fun _ => 0, 512⟩ bootVolume.toFatPrivate (0x7FFD : Nat) (0 : Nat) =
      Word.int ((512 * bootVolume.sectorOf 0x7FFD : Nat)) := by
    unfold fat16StartingPos
    rw [bootVolume_geometry.clusterToSector (by decide) (by decide)]
    rfl
  rw [hpos] at hasked
  exact sector_wraps (z := 512 * bootVolume.sectorOf 0x7FFD) (by decide) (by decide)
    (hasked.trans (Nat.mul_div_cancel_left _ (by decide)).symm)

end Pandora
