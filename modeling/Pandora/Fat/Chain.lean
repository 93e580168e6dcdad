import Mathlib.Data.List.Basic
import Mathlib.Data.Nat.ModEq
import Pandora.Fat.Defs

/-!
# Reading along a cluster chain

The clusters of a file are `c 0, c 1, …, c m`, each the table's entry for the one before
(`Chain`). `fileContents` is the concatenation of their bytes, and `fileByte` the byte at a position
of it.

`readByte offset k` is the byte a read at `offset` delivers as its `k`-th: the code starts every
cluster-sized piece at the same place `offset % clusterSize` of its cluster and reads on past the
end of it (`readFromStream_spec`). That is the byte of the file where the read is aligned to the
clusters or stays inside one of them (`readByte_eq_fileByte`).
-/

namespace Pandora

open ByteMem

/-! ## Clusters and files on the disk -/

namespace FatPrivate

/-- The bytes of a cluster. -/
def clusterSize (priv : FatPrivate) : Nat := priv.sectorsPerCluster * 512

/-- The first sector of cluster `c`. -/
def clusterSector (priv : FatPrivate) (c : Nat) : Int :=
  priv.endingSectorPos + (c - 2) * priv.sectorsPerCluster

/-- The position of cluster `c` on the disk. -/
def clusterPos (priv : FatPrivate) (c : Nat) : Nat := ((priv.clusterSector c) * 512).toNat

/-- The position of the table's entry for `c`. -/
def entryPos (priv : FatPrivate) (c : Nat) : Nat := priv.reservedSectors * 512 + c * 2

/-- `FAT[c]` -/
def link (priv : FatPrivate) (disk : Disk) (c : Nat) : Nat :=
  (disk.image (priv.entryPos c)).toNat + 2 ^ 8 * (disk.image (priv.entryPos c + 1)).toNat

end FatPrivate

/-- The concatenation of the clusters `c 0, …, c m`. -/
def fileContents (disk : Disk) (priv : FatPrivate) (c : Nat → Nat) (m : Nat) : List UInt8 :=
  (List.range (m + 1)).flatMap fun i => slice disk.image (priv.clusterPos (c i)) priv.clusterSize

/-- Byte `j` of that. -/
def fileByte (disk : Disk) (priv : FatPrivate) (c : Nat → Nat) : Mem := fun j =>
  disk.image (priv.clusterPos (c (j / priv.clusterSize)) + j % priv.clusterSize)

/-- The byte a read at `offset` delivers as its `k`-th. -/
def readByte (disk : Disk) (priv : FatPrivate) (c : Nat → Nat) (offset : Nat) : Mem := fun k =>
  disk.image (priv.clusterPos (c (offset / priv.clusterSize + k / priv.clusterSize)) +
    (offset % priv.clusterSize + k % priv.clusterSize))

/-- A mounted volume: sectors of 512 bytes, clusters of at least one, a stream for the table. -/
structure Mounted (disk : Disk) (priv : FatPrivate) : Prop where
  sectorSize : disk.sectorSize = 512
  sectors_pos : 1 ≤ priv.sectorsPerCluster
  stream : ∃ stream, priv.fatReadStream = some stream

/-- A link that leads on: not the end of a chain, not bad, reserved or unused. -/
structure LinkOk (c : Nat) : Prop where
  lo : 2 ≤ c
  hi : c ≤ 0xFFEF
  reserved : c ≠ 0xFF0 ∧ c ≠ 0xFF6
  bad : c ≠ 0xFF7

/-- `c 0, …, c m` is a chain of clusters on the disk, at positions below `2 ^ 31`. -/
structure Chain (disk : Disk) (priv : FatPrivate) (c : Nat → Nat) (m : Nat) : Prop where
  linked : ∀ i < m, priv.link disk (c i) = c (i + 1)
  linkOk : ∀ i < m, LinkOk (c (i + 1))
  entryPos : ∀ i < m, priv.entryPos (c i) + 2 ≤ 2 ^ 31
  sector : ∀ i ≤ m, 0 ≤ priv.clusterSector (c i)
  pos : ∀ i ≤ m, priv.clusterPos (c i) + priv.clusterSize ≤ 2 ^ 31

section

variable {disk : Disk} {priv : FatPrivate} {c : Nat → Nat} {m : Nat}

theorem Mounted.clusterSize_pos (h : Mounted disk priv) : 0 < priv.clusterSize := by
  have := h.sectors_pos
  unfold FatPrivate.clusterSize
  omega

theorem Mounted.clusterBytes (h : Mounted disk priv) :
    priv.sectorsPerCluster * disk.sectorSize = (priv.clusterSize : Nat) := by
  rw [h.sectorSize]
  rfl

theorem Mounted.eq_set (h : Mounted disk priv) :
    ∃ stream, priv = { priv with fatReadStream := some stream } := by
  obtain ⟨stream, hs⟩ := h.stream
  exact ⟨stream, by rw [← hs]⟩

theorem Chain.setFat (h : Chain disk priv c m) (stream : DiskStream) :
    Chain disk { priv with fatReadStream := some stream } c m :=
  ⟨h.linked, h.linkOk, h.entryPos, h.sector, h.pos⟩

theorem Mounted.setFat (h : Mounted disk priv) (stream : DiskStream) :
    Mounted disk { priv with fatReadStream := some stream } :=
  ⟨h.sectorSize, h.sectors_pos, stream, rfl⟩

/-! ## The contents of a file -/

theorem slice_fileByte (hC : 0 < priv.clusterSize) (i : Nat) :
    slice (fileByte disk priv c) (i * priv.clusterSize) priv.clusterSize =
      slice disk.image (priv.clusterPos (c i)) priv.clusterSize := by
  refine slice_congr fun j hj => ?_
  unfold fileByte
  rw [Nat.add_comm (i * _), Nat.add_mul_div_right _ _ hC, Nat.div_eq_of_lt hj, Nat.zero_add,
    Nat.add_mul_mod_self_right, Nat.mod_eq_of_lt hj]

theorem fileContents_eq (hC : 0 < priv.clusterSize) (m : Nat) :
    fileContents disk priv c m = slice (fileByte disk priv c) 0 ((m + 1) * priv.clusterSize) := by
  rw [← flatMap_slice]
  exact List.flatMap_congr fun i _ => (slice_fileByte hC i).symm

/-- A part of the contents. -/
theorem drop_take_fileContents (hC : 0 < priv.clusterSize) {offset total : Nat}
    (h : offset + total ≤ (m + 1) * priv.clusterSize) :
    ((fileContents disk priv c m).drop offset).take total =
      slice (fileByte disk priv c) offset total := by
  obtain ⟨r, hr⟩ := Nat.exists_eq_add_of_le h
  rw [fileContents_eq hC, hr, Nat.add_assoc, slice_add, Nat.zero_add, slice_add,
    List.drop_left' (slice_length _ _ _), List.take_left' (slice_length _ _ _)]

/-- A read that starts at a cluster or stays inside one delivers the bytes of the file. -/
theorem readByte_eq_fileByte {offset k : Nat}
    (h : offset % priv.clusterSize + k % priv.clusterSize < priv.clusterSize) :
    readByte disk priv c offset k = fileByte disk priv c (offset + k) := by
  have hdiv : (offset + k) / priv.clusterSize =
      offset / priv.clusterSize + k / priv.clusterSize := Nat.add_div_eq_of_add_mod_lt h
  have hmod : (offset + k) % priv.clusterSize =
      offset % priv.clusterSize + k % priv.clusterSize := by
    rw [Nat.add_mod, Nat.mod_eq_of_lt h]
  unfold readByte fileByte
  rw [hdiv, hmod]

/-! ## Following the links -/

theorem getFatEntry_eq (h : Mounted disk priv) {cl : Nat} (hpos : priv.entryPos cl + 2 ≤ 2 ^ 31) :
    ∃ stream, fat16GetFatEntry disk priv cl =
      (((priv.link disk cl : Nat) : Int), { priv with fatReadStream := some stream }) := by
  obtain ⟨stream, hs⟩ := h.stream
  have hseek : Word.int (fat16GetFirstFatSector priv * disk.sectorSize + (cl : Int) * 2) =
      (priv.entryPos cl : Nat) := by
    unfold FatPrivate.entryPos at hpos
    unfold fat16GetFirstFatSector FatPrivate.entryPos
    rw [h.sectorSize, Word.int_of_mem (by omega) (by omega)]
    omega
  obtain ⟨stream', hr⟩ := diskstreamerRead_spec disk 2 (priv.entryPos cl) 0 (fun _ => 0) hpos
  refine ⟨stream', ?_⟩
  unfold fat16GetFatEntry
  rw [hs]
  dsimp only [diskstreamerSeek]
  have hbyte : ∀ i < 2, writeBytes (fun _ => 0) 0 (slice disk.image (priv.entryPos cl) 2) i =
      disk.image (priv.entryPos cl + i) := fun i hi => by
    have hlen : i < (slice disk.image (priv.entryPos cl) 2).length := by rwa [slice_length]
    rw [← getElem_slice hlen, ← writeBytes_apply (m := fun _ => 0) (a := 0) hlen, Nat.zero_add]
  rw [hseek, if_neg (by decide), show (2 : Int) = (2 : Nat) from rfl, hr]
  dsimp only
  rw [if_neg (by decide), hbyte 0 (by decide), hbyte 1 (by decide), Nat.add_zero]
  unfold FatPrivate.link
  push_cast
  rfl

theorem clusterForOffset_loop (hch : Chain disk priv c m) :
    ∀ (n i : Nat) (priv' : FatPrivate), i + n ≤ m → Mounted disk priv' →
      (∃ s, priv' = { priv with fatReadStream := some s }) →
      ∃ stream, fat16GetClusterForOffset.loop disk n (c i) priv' =
        (((c (i + n) : Nat) : Int), { priv with fatReadStream := some stream })
  | 0, i, priv', _, _, ⟨s, hs⟩ => ⟨s, by rw [hs]; rfl⟩
  | n + 1, i, priv', hi, hmt, ⟨s, hs⟩ => by
    have hlink : priv'.link disk (c i) = c (i + 1) := by
      rw [hs]
      exact hch.linked i (by omega)
    have hpos : priv'.entryPos (c i) + 2 ≤ 2 ^ 31 := by
      rw [hs]
      exact hch.entryPos i (by omega)
    obtain ⟨stream, he⟩ := getFatEntry_eq hmt hpos
    obtain ⟨hlo, hhi, hres, hbad⟩ := hch.linkOk i (by omega)
    obtain ⟨stream', hloop⟩ := clusterForOffset_loop hch n (i + 1)
      { priv' with fatReadStream := some stream } (by omega) (hmt.setFat stream)
      ⟨stream, by rw [hs]⟩
    refine ⟨stream', ?_⟩
    unfold fat16GetClusterForOffset.loop
    rw [he, hlink]
    dsimp only
    rw [if_neg (by omega), if_neg (by omega), if_neg (by omega), if_neg (by omega), hloop,
      show i + 1 + n = i + (n + 1) by omega]

theorem clusterForOffset_eq (h : Mounted disk priv) (hch : Chain disk priv c m) {offset : Nat}
    (ho : offset / priv.clusterSize ≤ m) :
    ∃ stream, fat16GetClusterForOffset disk priv (c 0) offset =
      (((c (offset / priv.clusterSize) : Nat) : Int), { priv with fatReadStream := some stream }) := by
  obtain ⟨stream, hl⟩ := clusterForOffset_loop hch (offset / priv.clusterSize) 0 priv (by omega) h
    h.eq_set
  refine ⟨stream, ?_⟩
  rw [Nat.zero_add] at hl
  unfold fat16GetClusterForOffset
  dsimp only
  rw [h.clusterBytes]
  exact hl

/-! ## Reading -/

/-- The read at `offset` of `total` bytes stays on the chain, at positions below `2 ^ 31`. -/
structure Fits (priv : FatPrivate) (c : Nat → Nat) (m offset total : Nat) : Prop where
  pos : 1 ≤ total
  clusters : offset / priv.clusterSize + (total - 1) / priv.clusterSize ≤ m
  bytes : offset + total ≤ 2 ^ 31
  disk : ∀ i, i * priv.clusterSize < total →
    priv.clusterPos (c (offset / priv.clusterSize + i)) + offset % priv.clusterSize +
      min priv.clusterSize (total - i * priv.clusterSize) ≤ 2 ^ 31

/-- After the first piece, which is a whole cluster long. -/
theorem Fits.next {offset total : Nat} (hC : 0 < priv.clusterSize)
    (h : Fits priv c m offset total) (hlt : priv.clusterSize < total) :
    Fits priv c m (offset + priv.clusterSize) (total - priv.clusterSize) where
  pos := by omega
  clusters := by
    have hd : (total - priv.clusterSize - 1) / priv.clusterSize + 1 =
        (total - 1) / priv.clusterSize := by
      rw [← Nat.add_div_right _ hC]
      congr 1
      omega
    have := h.clusters
    rw [Nat.add_div_right _ hC]
    omega
  bytes := by
    have := h.bytes
    omega
  disk := fun i hi => by
    have hmul : (i + 1) * priv.clusterSize = i * priv.clusterSize + priv.clusterSize :=
      Nat.succ_mul _ _
    have := h.disk (i + 1) (by omega)
    rw [Nat.add_div_right _ hC, Nat.add_mod_right,
      show offset / priv.clusterSize + 1 + i = offset / priv.clusterSize + (i + 1) by omega]
    omega

/-- The rest of a read, seen from its start. -/
theorem slice_readByte_next {offset : Nat} (hC : 0 < priv.clusterSize) (n : Nat) :
    slice (readByte disk priv c (offset + priv.clusterSize)) 0 n =
      slice (readByte disk priv c offset) priv.clusterSize n := by
  refine slice_congr fun k _ => ?_
  unfold readByte
  rw [Nat.zero_add, Nat.add_div_right _ hC, Nat.add_mod_right, Nat.add_comm priv.clusterSize k,
    Nat.add_div_right _ hC, Nat.add_mod_right,
    show offset / priv.clusterSize + 1 + k / priv.clusterSize =
      offset / priv.clusterSize + (k / priv.clusterSize + 1) by omega]

/-- The first piece of a read lies in one stretch of the disk. -/
theorem slice_readByte_first {offset n : Nat} (hn : n ≤ priv.clusterSize) :
    slice (readByte disk priv c offset) 0 n =
      slice disk.image (priv.clusterPos (c (offset / priv.clusterSize)) +
        offset % priv.clusterSize) n := by
  refine slice_congr fun k hk => ?_
  unfold readByte
  have hlt : k < priv.clusterSize := by omega
  rw [Nat.zero_add, Nat.div_eq_of_lt hlt, Nat.mod_eq_of_lt hlt, Nat.add_zero, Nat.add_assoc]

theorem startingPos_eq (h : Mounted disk priv) {cl r : Nat} (hsec : 0 ≤ priv.clusterSector cl)
    (hpos : priv.clusterPos cl + r < 2 ^ 31) :
    Word.int (fat16ClusterToSector priv cl * disk.sectorSize + (r : Nat)) =
      (priv.clusterPos cl + r : Nat) := by
  have hcp : priv.clusterSector cl * 512 = (priv.clusterPos cl : Nat) := by
    unfold FatPrivate.clusterPos
    omega
  have hsector : fat16ClusterToSector priv cl = priv.clusterSector cl :=
    Word.int_of_mem (z := priv.clusterSector cl) (by omega) (by omega)
  rw [hsector, h.sectorSize, hcp, Word.int_of_mem (by omega) (by omega)]
  rfl

/-- **What a read delivers**: `readByte`, for every offset and length on the chain. -/
theorem readFromStream_spec :
    ∀ (fuel offset total out : Nat) (mem : Mem) (priv : FatPrivate) (stream : DiskStream),
      Mounted disk priv → Chain disk priv c m → Fits priv c m offset total → total < fuel →
      ∃ s stream', fat16ReadInternalFromStream disk fuel priv stream (c 0 : Nat) offset total out
        mem = some (allOk, { priv with fatReadStream := some s }, stream',
          writeBytes mem out (slice (readByte disk priv c offset) 0 total))
  | 0, _, _, _, _, _, _, _, _, _, hfuel => absurd hfuel (Nat.not_lt_zero _)
  | fuel + 1, offset, total, out, mem, priv, stream, h, hch, hfit, hfuel => by
    have hC := h.clusterSize_pos
    have hpos := hfit.pos
    have hbytes := hfit.bytes
    have hj : offset / priv.clusterSize ≤ m := (Nat.le_add_right _ _).trans hfit.clusters
    obtain ⟨s, hs⟩ := clusterForOffset_eq h hch hj
    -- the private data from here on: only the stream differs
    obtain ⟨q, hq⟩ : ∃ q : FatPrivate, { priv with fatReadStream := some s } = q := ⟨_, rfl⟩
    have hmq : Mounted disk q := hq ▸ h.setFat s
    have hcq : Chain disk q c m := hq ▸ hch.setFat s
    have hsame : q.clusterSize = priv.clusterSize ∧ q.clusterPos = priv.clusterPos ∧
        readByte disk q c = readByte disk priv c ∧
        (∀ o t, Fits priv c m o t → Fits q c m o t) ∧
        ∀ s', { q with fatReadStream := some s' } = { priv with fatReadStream := some s' } := by
      subst hq
      exact ⟨rfl, rfl, rfl, fun _ _ h => ⟨h.pos, h.clusters, h.bytes, h.disk⟩, fun _ => rfl⟩
    obtain ⟨hsize, hcp, hbyte, hfits, hset⟩ := hsame
    rw [hq] at hs
    -- the piece that is read now
    obtain ⟨a, ha⟩ : ∃ a, min priv.clusterSize total = a := ⟨_, rfl⟩
    have hdisk := hfit.disk 0 (by omega)
    rw [Nat.zero_mul, Nat.add_zero, Nat.sub_zero, ha] at hdisk
    have hstart := startingPos_eq hmq (r := offset % priv.clusterSize) (hcq.sector _ hj)
      (by rw [hcp]; omega)
    rw [hcp] at hstart
    have hread : (if (total : Int) > (priv.clusterSize : Nat) then ((priv.clusterSize : Nat) : Int)
        else total) = (a : Nat) := by
      split <;> omega
    obtain ⟨stream', hr⟩ := diskstreamerRead_spec disk a
      (priv.clusterPos (c (offset / priv.clusterSize)) + offset % priv.clusterSize) out mem
      hdisk
    rw [← slice_readByte_first (by omega)] at hr
    have hmod : (offset : Int).tmod (priv.clusterSize : Nat) = (offset % priv.clusterSize : Nat) :=
      rfl
    unfold fat16ReadInternalFromStream
    rw [hs]
    dsimp only [diskstreamerSeek]
    rw [h.clusterBytes, if_neg (by omega), if_neg (by decide), hmod, hstart, hread, hr]
    dsimp only
    rw [if_neg (by decide)]
    rcases Nat.lt_or_ge priv.clusterSize total with hlt | hge
    · have haC : a = priv.clusterSize := by omega
      subst haC
      obtain ⟨s', stream'', hrest⟩ := readFromStream_spec fuel (offset + priv.clusterSize)
        (total - priv.clusterSize) (out + priv.clusterSize)
        (writeBytes mem out (slice (readByte disk priv c offset) 0 priv.clusterSize)) q stream' hmq
        hcq (hfits _ _ (hfit.next hC hlt)) (by omega)
      have hpieces : writeBytes (writeBytes mem out (slice (readByte disk priv c offset) 0
            priv.clusterSize)) (out + priv.clusterSize)
            (slice (readByte disk q c (offset + priv.clusterSize)) 0 (total - priv.clusterSize)) =
          writeBytes mem out (slice (readByte disk priv c offset) 0 total) := by
        have := writeBytes_append mem out (slice (readByte disk priv c offset) 0 priv.clusterSize)
          (slice (readByte disk priv c offset) priv.clusterSize (total - priv.clusterSize))
        have hsplit := slice_add (readByte disk priv c offset) 0 priv.clusterSize
          (total - priv.clusterSize)
        rw [slice_length] at this
        rw [Nat.zero_add, Nat.add_sub_cancel' hlt.le] at hsplit
        rw [hbyte, slice_readByte_next hC, this, ← hsplit]
      rw [hset, hpieces] at hrest
      rw [if_pos (by omega), Word.int_of_mem (by omega) (by omega), Int.toNat_natCast,
        ← Int.natCast_add, ← Int.natCast_sub hlt.le]
      exact ⟨s', stream'', hrest⟩
    · have haT : a = total := by omega
      subst haT
      rw [if_neg (by omega)]
      exact ⟨s, stream', by rw [hq]; rfl⟩

theorem readInternal_spec (h : Mounted disk priv) (hch : Chain disk priv c m) {offset total : Nat}
    (hfit : Fits priv c m offset total) (out : Nat) (mem : Mem) :
    ∃ s s', fat16ReadInternal disk priv (c 0 : Nat) offset total out mem =
      some (allOk, { priv with fatReadStream := some s, clusterReadStream := s' },
        writeBytes mem out (slice (readByte disk priv c offset) 0 total)) := by
  obtain ⟨s, s', hr⟩ := readFromStream_spec (total + 1) offset total out mem priv
    priv.clusterReadStream h hch hfit (Nat.lt_succ_self _)
  refine ⟨s, s', ?_⟩
  unfold fat16ReadInternal
  rw [Int.toNat_natCast, hr]

/-- The last byte of a range below the end of the chain is in one of its clusters. -/
theorem clusters_le {offset total : Nat} (hC : 0 < priv.clusterSize) (ht : 1 ≤ total)
    (hend : offset + total ≤ (m + 1) * priv.clusterSize) :
    offset / priv.clusterSize + (total - 1) / priv.clusterSize ≤ m := by
  have hle : offset / priv.clusterSize + (total - 1) / priv.clusterSize ≤
      (offset + (total - 1)) / priv.clusterSize := Nat.div_add_div_le_add_div
  have hlt : (offset + (total - 1)) / priv.clusterSize < m + 1 :=
    (Nat.div_lt_iff_lt_mul hC).2 (by omega)
  omega

/-- A range of the file that starts at a cluster or stays inside one. -/
theorem Fits.of_cut (h : Mounted disk priv) (hch : Chain disk priv c m) {offset total : Nat}
    (ht : 1 ≤ total) (hend : offset + total ≤ (m + 1) * priv.clusterSize)
    (hbytes : offset + total ≤ 2 ^ 31)
    (hcut : offset % priv.clusterSize = 0 ∨
      offset % priv.clusterSize + total ≤ priv.clusterSize) : Fits priv c m offset total where
  pos := ht
  clusters := clusters_le h.clusterSize_pos ht hend
  bytes := hbytes
  disk := fun i hi => by
    have hC := h.clusterSize_pos
    have hcl := clusters_le hC ht hend
    have hi' : i ≤ (total - 1) / priv.clusterSize := (Nat.le_div_iff_mul_le hC).2 (by omega)
    have := hch.pos (offset / priv.clusterSize + i) (by omega)
    rcases hcut with h0 | hin
    · omega
    · -- the range is inside the first cluster
      rcases Nat.eq_zero_or_pos i with rfl | hpos
      · omega
      · have := Nat.le_mul_of_pos_left priv.clusterSize hpos
        omega

theorem slice_readByte_of_cut (hC : 0 < priv.clusterSize) {offset total : Nat}
    (hcut : offset % priv.clusterSize = 0 ∨
      offset % priv.clusterSize + total ≤ priv.clusterSize) :
    slice (readByte disk priv c offset) 0 total = slice (fileByte disk priv c) offset total :=
  slice_congr fun k hk => by
    rw [Nat.zero_add, readByte_eq_fileByte]
    rcases hcut with h0 | hin
    · rw [h0, Nat.zero_add]
      exact Nat.mod_lt _ hC
    · rw [Nat.mod_eq_of_lt (show k < priv.clusterSize by omega)]
      omega

/-- **Reading a file yields its cluster chain.** A read that starts at a cluster or stays inside one
delivers exactly those bytes of the concatenation of the clusters. -/
theorem fat16_read_yields_chain (h : Mounted disk priv) (hch : Chain disk priv c m)
    {offset total : Nat} (ht : 1 ≤ total) (hend : offset + total ≤ (m + 1) * priv.clusterSize)
    (hbytes : offset + total ≤ 2 ^ 31)
    (hcut : offset % priv.clusterSize = 0 ∨
      offset % priv.clusterSize + total ≤ priv.clusterSize) (out : Nat) (mem : Mem) :
    ∃ priv', fat16ReadInternal disk priv (c 0 : Nat) offset total out mem =
      some (allOk, priv', writeBytes mem out
        (((fileContents disk priv c m).drop offset).take total)) := by
  have hC := h.clusterSize_pos
  obtain ⟨s, s', hr⟩ := readInternal_spec h hch (.of_cut h hch ht hend hbytes hcut) out mem
  rw [drop_take_fileContents hC hend, ← slice_readByte_of_cut hC hcut]
  exact ⟨_, hr⟩

end

/-- A volume with one reserved sector, clusters of one sector from sector 10 on, and `FAT[2] = 3`. -/
def smallDisk : Disk where
  image := fun p => if p = 516 then 3 else if p = 517 then 0 else UInt8.ofNat (p / 512)

def smallVolume : FatPrivate where
  reservedSectors := 1
  sectorsPerCluster := 1
  endingSectorPos := 10

theorem smallVolume_mounted : Mounted smallDisk smallVolume := ⟨rfl, Nat.le_refl 1, _, rfl⟩

theorem smallVolume_chain : Chain smallDisk smallVolume (· + 2) 1 where
  linked := by decide
  linkOk := fun i hi => by
    obtain rfl : i = 0 := by omega
    exact ⟨by decide, by decide, by decide, by decide⟩
  entryPos := by decide
  sector := by decide
  pos := by decide

theorem fat16_read_yields_chain_small :
    ∃ priv', fat16ReadInternal smallDisk smallVolume (2 : Nat) 0 1000 0 (fun _ => 0) =
      some (allOk, priv', writeBytes (fun _ => 0) 0
        (((fileContents smallDisk smallVolume (· + 2) 1).drop 0).take 1000)) :=
  fat16_read_yields_chain smallVolume_mounted smallVolume_chain (by decide) (by decide)
    (by decide) (.inl rfl) 0 _

end Pandora
