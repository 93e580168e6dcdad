import Mathlib.Data.Set.Basic
import Pandora.Fat.Fread
import Pandora.Lib.Run

/-!
# Moving about in a file (`fs/fat/fat16.c`, `fs/file.c`)

`fat16_seek` compares the offset it is given with the size of the file, also where it adds it to the
position, and `fat16_read` compares nothing. `FileOp.Inside` says of a call that the position is at
most the size after it and that a successful read delivered bytes of the file only; `FileOp.Within`
is the condition on the state before under which a call does so. A read past the end of the file may
fail because the chain of clusters ends (`WalkFails`).
-/

namespace Pandora

open ByteMem

def eunimp : Int := 7

/-- `FILE_SEEK_MODE`, an unsigned number. -/
def seekSet : Nat := 0
def seekCur : Nat := 1
def seekEnd : Nat := 2

/-- `type` is that of the descriptor's item. -/
def fat16Seek (type : FatItemType) (desc : FatFileDescriptor) (offset seekMode : Nat) :
    Int × FatFileDescriptor :=
  if type ≠ .file then (-einvarg, desc)
  else if offset ≥ desc.item.filesize then (-eio, desc)
  else if seekMode = seekSet then (0, { desc with pos := offset })
  else if seekMode = seekEnd then (-eunimp, desc)
  else if seekMode = seekCur then (0, { desc with pos := Word.add desc.pos offset })
  else (-einvarg, desc)

/-- The descriptors of `Files` are of files. -/
def fseek (files : Files) (fd offset : Int) (whence : Nat) : Int × Files :=
  match fileGetDescriptor files fd with
  | none => (-eio, files)
  | some desc =>
    let (res, desc) := fat16Seek .file desc (Word.ofInt offset) whence
    (res, { files with
      descriptors := Function.update files.descriptors (fd - 1).toNat (some desc) })

/-! ## Calls on a descriptor -/

structure FileRun where
  files : Files
  mem : Mem

inductive FileOp where
  | seek (offset : Int) (whence : Nat)
  | read (size nmemb ptr : Nat)
deriving DecidableEq, Repr

/-- Sizes and counts are words. -/
def FileOp.Valid : FileOp → Prop
  | seek _ _ => True
  | read size nmemb _ => size < 2 ^ 32 ∧ nmemb < 2 ^ 32

/-- A read that does not return leaves no state. -/
def FileOp.step (disk : Disk) (fd : Int) (s : FileRun) : FileOp → FileRun
  | seek offset whence => { s with files := (fseek s.files fd offset whence).2 }
  | read size nmemb ptr =>
    match fread disk s.files ptr size nmemb fd s.mem with
    | none => s
    | some (_, files, mem) => ⟨files, mem⟩

/-- `fread` reports success. -/
def FileOp.Succeeds (disk : Disk) (fd : Int) (s : FileRun) (size nmemb ptr : Nat) : Prop :=
  ∃ res files mem, fread disk s.files ptr size nmemb fd s.mem = some (res, files, mem) ∧ 0 ≤ res

/-- The offsets in the file of the bytes that reads of `nmemb` items from `pos` on deliver: a size of
`2 ^ 31` and more is negative as an `int`, and nothing is read. -/
def deliveredOffsets (pos size nmemb : Nat) : Set Nat :=
  {q | ∃ i < nmemb, ∃ k < (Word.toInt size).toNat, q = pos + i * size + k}

/-- The position is inside the file after the call, and so was what it delivered. -/
def FileOp.Inside (disk : Disk) (fd : Int) (s : FileRun) (o : FileOp) : Prop :=
  ∀ desc, fileGetDescriptor s.files fd = some desc →
    (∀ desc', fileGetDescriptor (o.step disk fd s).files fd = some desc' →
      desc'.pos ≤ desc.item.filesize) ∧
    match o with
    | seek _ _ => True
    | read size nmemb ptr => Succeeds disk fd s size nmemb ptr →
      ∀ q ∈ deliveredOffsets desc.pos size nmemb, q < desc.item.filesize

/-- Some cluster that a read of `nmemb` items from `pos` on needs is not on the chain from `first`. -/
def WalkFails (disk : Disk) (priv : FatPrivate) (first : Int) (pos size nmemb : Nat) : Prop :=
  ∃ i < nmemb, ∃ j : Nat, (j = 0 ∨ (j * priv.clusterSize : Nat) < Word.toInt size) ∧
    (fat16GetClusterForOffset disk priv first
      (Word.int (pos + i * size + j * priv.clusterSize : Nat))).1 < 0

/-- The call keeps inside the file (module doc). -/
def FileOp.Within (disk : Disk) (fd : Int) (s : FileRun) : FileOp → Prop
  | seek offset whence => ∀ desc, fileGetDescriptor s.files fd = some desc → whence = seekCur →
    Word.ofInt offset < desc.item.filesize →
      Word.add desc.pos (Word.ofInt offset) ≤ desc.item.filesize
  | read size nmemb _ => ∀ desc, fileGetDescriptor s.files fd = some desc →
    size = 0 ∨ nmemb = 0 ∨
    WalkFails disk s.files.priv (Word.toInt (fat16GetFirstCluster desc.item)) desc.pos size nmemb ∨
    ((desc.pos + nmemb * size) % 2 ^ 32 ≤ desc.item.filesize ∧
      (size < 2 ^ 31 → nmemb < 2 ^ 31 → desc.pos + nmemb * size ≤ desc.item.filesize))

/-- The descriptor of a file of that size is open, at a position inside it. -/
def OpenInside (fd : Int) (filesize : Nat) (s : FileRun) : Prop :=
  ∃ desc, fileGetDescriptor s.files fd = some desc ∧ desc.item.filesize = filesize ∧
    desc.pos ≤ filesize

/-! ## What a walk along the chain depends on -/

/-- The same volume: only the positions of the streams may differ. -/
structure FatPrivate.SameVolume (priv priv' : FatPrivate) : Prop where
  reservedSectors : priv'.reservedSectors = priv.reservedSectors
  sectorsPerCluster : priv'.sectorsPerCluster = priv.sectorsPerCluster
  endingSectorPos : priv'.endingSectorPos = priv.endingSectorPos
  stream : priv'.fatReadStream.isSome = priv.fatReadStream.isSome

section

variable {disk : Disk} {priv priv' : FatPrivate} {fd : Int} {s : FileRun} {filesize : Nat}

theorem FatPrivate.SameVolume.refl (priv : FatPrivate) : priv.SameVolume priv := ⟨rfl, rfl, rfl, rfl⟩

theorem FatPrivate.SameVolume.trans {p q r : FatPrivate} (h : p.SameVolume q) (h' : q.SameVolume r) :
    p.SameVolume r :=
  ⟨h'.1.trans h.1, h'.2.trans h.2, h'.3.trans h.3, h'.4.trans h.4⟩

theorem FatPrivate.SameVolume.symm {p q : FatPrivate} (h : p.SameVolume q) : q.SameVolume p :=
  ⟨h.1.symm, h.2.symm, h.3.symm, h.4.symm⟩

theorem FatPrivate.SameVolume.clusterSize {p q : FatPrivate} (h : p.SameVolume q) :
    q.clusterSize = p.clusterSize := by
  unfold FatPrivate.clusterSize
  rw [h.sectorsPerCluster]

/-- The entry is read at its own position, wherever the stream was before. -/
theorem getFatEntry_sameVolume (disk : Disk) (h : priv.SameVolume priv') (cluster : Int) :
    (fat16GetFatEntry disk priv' cluster).1 = (fat16GetFatEntry disk priv cluster).1 ∧
      priv.SameVolume (fat16GetFatEntry disk priv cluster).2 := by
  have hs := h.stream
  unfold fat16GetFatEntry fat16GetFirstFatSector diskstreamerSeek
  rw [h.reservedSectors]
  cases hp : priv.fatReadStream with
  | none =>
    have hs' : priv'.fatReadStream = none := by simpa [hp] using hs
    rw [hs']
    exact ⟨rfl, .refl priv⟩
  | some stream =>
    rw [hp] at hs
    obtain ⟨stream', hs'⟩ := Option.isSome_iff_exists.1 hs
    rw [hs']
    dsimp only
    rw [if_neg (Int.lt_irrefl 0), if_neg (Int.lt_irrefl 0)]
    cases diskstreamerRead disk
      ⟨Word.int (priv.reservedSectors * disk.sectorSize + cluster * 2)⟩ 0 2 fun _ => 0 with
    | mk res rest =>
      dsimp only
      by_cases hres : res < 0
      · rw [if_pos hres, if_pos hres]
        exact ⟨rfl, rfl, rfl, rfl, by rw [hp]; rfl⟩
      · rw [if_neg hres, if_neg hres]
        exact ⟨rfl, rfl, rfl, rfl, by rw [hp]; rfl⟩

theorem clusterForOffset_loop_sameVolume : ∀ (n : Nat) (cluster : Int) (priv priv' : FatPrivate),
    priv.SameVolume priv' →
    (fat16GetClusterForOffset.loop disk n cluster priv').1 =
      (fat16GetClusterForOffset.loop disk n cluster priv).1 ∧
    priv.SameVolume (fat16GetClusterForOffset.loop disk n cluster priv).2
  | 0, _, priv, _, _ => ⟨rfl, .refl priv⟩
  | n + 1, cluster, priv, priv', h => by
    obtain ⟨he, hv⟩ := getFatEntry_sameVolume disk h cluster
    obtain ⟨-, hv'⟩ := getFatEntry_sameVolume disk (.refl priv') cluster
    obtain ⟨hl, hvl⟩ := clusterForOffset_loop_sameVolume n (fat16GetFatEntry disk priv cluster).1
      (fat16GetFatEntry disk priv cluster).2 (fat16GetFatEntry disk priv' cluster).2
      ((hv.symm.trans h).trans hv')
    unfold fat16GetClusterForOffset.loop
    dsimp only
    rw [he]
    split_ifs
    · exact ⟨rfl, hv⟩
    · exact ⟨rfl, hv⟩
    · exact ⟨rfl, hv⟩
    · exact ⟨rfl, hv⟩
    · exact ⟨hl, hv.trans hvl⟩

theorem clusterForOffset_sameVolume (disk : Disk) (h : priv.SameVolume priv')
    (first offset : Int) :
    (fat16GetClusterForOffset disk priv' first offset).1 =
      (fat16GetClusterForOffset disk priv first offset).1 ∧
    priv.SameVolume (fat16GetClusterForOffset disk priv first offset).2 := by
  unfold fat16GetClusterForOffset
  dsimp only
  rw [h.sectorsPerCluster]
  exact clusterForOffset_loop_sameVolume _ _ _ _ h

/-! ## What a successful read needs -/

/-- The driver never fails. -/
theorem diskstreamerRead_status (disk : Disk) (stream : DiskStream) (out : Nat) (total : Int)
    (m : Mem) : (diskstreamerRead disk stream out total m).1 = allOk := by
  fun_induction diskstreamerRead disk stream out total m with
  | case1 stream out total m sector res buf hblock hres =>
    have : res = 0 := congrArg Prod.fst hblock.symm
    omega
  | case2 => assumption
  | case3 stream out total m sector offset totalToRead res buf hblock =>
    exact congrArg Prod.fst hblock.symm

/-- Every round of a successful read found its cluster. -/
theorem readFromStream_walks (hdisk : disk.sectorSize = 512) (first : Int) :
    ∀ (fuel : Nat) (priv : FatPrivate) (stream : DiskStream) (offset total : Int) (out : Nat)
      (mem : Mem) (res : Int) (p : FatPrivate) (st : DiskStream) (mem' : Mem),
      Word.int offset = offset →
      fat16ReadInternalFromStream disk fuel priv stream first offset total out mem =
        some (res, p, st, mem') → 0 ≤ res →
      priv.SameVolume p ∧ ∀ j : Nat, (j = 0 ∨ (j * priv.clusterSize : Nat) < total) →
        0 ≤ (fat16GetClusterForOffset disk priv first
          (Word.int (offset + (j * priv.clusterSize : Nat)))).1
  | 0, _, _, _, _, _, _, _, _, _, _, _, h, _ => by cases h
  | fuel + 1, priv, stream, offset, total, out, mem, res, p, st, mem', hoff, h, hres => by
    have hC : (priv.sectorsPerCluster : Int) * disk.sectorSize = (priv.clusterSize : Nat) := by
      rw [hdisk]
      rfl
    obtain ⟨-, hv⟩ := clusterForOffset_sameVolume disk (.refl priv) first offset
    unfold fat16ReadInternalFromStream at h
    dsimp only [diskstreamerSeek] at h
    rw [hC] at h
    obtain ⟨walk, hw⟩ : ∃ walk, fat16GetClusterForOffset disk priv first offset = walk := ⟨_, rfl⟩
    rw [hw] at h hv
    have hwalk : ¬ walk.1 < 0 := fun hneg => by
      rw [if_pos hneg] at h
      cases h
      exact absurd hres (by omega)
    have hfirst : 0 ≤ (fat16GetClusterForOffset disk priv first
        (Word.int (offset + (0 * priv.clusterSize : Nat)))).1 := by
      rw [Nat.zero_mul, Int.natCast_zero, Int.add_zero, hoff, hw]
      omega
    rw [if_neg hwalk, if_neg (show ¬ (0 : Int) ≠ allOk by decide),
      if_neg (fun hne => hne (diskstreamerRead_status _ _ _ _ _))] at h
    rcases Int.lt_or_le priv.clusterSize total with hlt | hge
    · rw [if_pos hlt, if_pos (show total - (priv.clusterSize : Int) > 0 by omega)] at h
      obtain ⟨hp, hrest⟩ := readFromStream_walks hdisk first fuel _ _ _ _ _ _ _ _ _ _
        (Word.int_int _) h hres
      refine ⟨hv.trans hp, fun j hj => ?_⟩
      cases j with
      | zero => exact hfirst
      | succ j =>
        have hmul : (j + 1) * priv.clusterSize = priv.clusterSize + j * priv.clusterSize := by
          rw [Nat.succ_mul, Nat.add_comm]
        have hlt' : (((j + 1) * priv.clusterSize : Nat) : Int) < total := hj.resolve_left (by omega)
        rw [hmul] at hlt' ⊢
        have hj' := hrest j (.inr (by rw [hv.clusterSize]; omega))
        rw [hv.clusterSize, Word.int_int_add,
          (clusterForOffset_sameVolume disk hv first _).1, Int.add_assoc, ← Int.natCast_add] at hj'
        exact hj'
    · rw [if_neg (show ¬ total > (priv.clusterSize : Int) by omega), if_neg (by omega)] at h
      cases h
      refine ⟨hv, fun j hj => ?_⟩
      rcases hj with rfl | hj
      · exact hfirst
      · -- the only round is the first one
        rcases Nat.eq_zero_or_pos j with rfl | hpos
        · exact hfirst
        · have := Nat.le_mul_of_pos_left priv.clusterSize hpos
          omega

theorem readInternal_walks (hdisk : disk.sectorSize = 512) {first offset total : Int} {out : Nat}
    {mem mem' : Mem} {res : Int} (hoff : Word.int offset = offset)
    (h : fat16ReadInternal disk priv first offset total out mem = some (res, priv', mem'))
    (hres : 0 ≤ res) :
    priv.SameVolume priv' ∧ ∀ j : Nat, (j = 0 ∨ (j * priv.clusterSize : Nat) < total) →
      0 ≤ (fat16GetClusterForOffset disk priv first
        (Word.int (offset + (j * priv.clusterSize : Nat)))).1 := by
  unfold fat16ReadInternal at h
  cases hr : fat16ReadInternalFromStream disk (total.toNat + 1) priv priv.clusterReadStream first
      offset total out mem with
  | none =>
    rw [hr] at h
    cases h
  | some r =>
    obtain ⟨res', p, st, mem''⟩ := r
    rw [hr] at h
    cases h
    obtain ⟨hv, hw⟩ := readFromStream_walks hdisk first _ _ _ _ _ _ _ _ _ _ _ hoff hr hres
    exact ⟨⟨hv.1, hv.2, hv.3, hv.4⟩, hw⟩

/-- The loop over the items: where it ends, and the clusters it found. -/
theorem fat16Read_loop_walks (hdisk : disk.sectorSize = 512) {item : FatDirectoryItem} {size : Nat} :
    ∀ (n : Nat) (priv : FatPrivate) (res offset : Int) (out : Nat) (mem : Mem) (res' : Int)
      (p : FatPrivate) (offset' : Int) (mem' : Mem), Word.int offset = offset →
      fat16Read.loop disk item size n priv res offset out mem = some (res', p, offset', mem') →
      0 ≤ res' →
      offset' = Word.int (offset + (n * size : Nat)) ∧
        ∀ i < n, ∀ j : Nat, (j = 0 ∨ (j * priv.clusterSize : Nat) < Word.toInt size) →
          0 ≤ (fat16GetClusterForOffset disk priv (Word.toInt (fat16GetFirstCluster item))
            (Word.int (offset + (i * size + j * priv.clusterSize : Nat)))).1
  | 0, priv, res, offset, _, _, _, _, _, _, hoff, h, _ => by
    cases h
    refine ⟨?_, fun i hi => absurd hi (Nat.not_lt_zero i)⟩
    rw [Nat.zero_mul, Int.natCast_zero, Int.add_zero, hoff]
  | n + 1, priv, res, offset, out, mem, res', p, offset', mem', hoff, h, hres => by
    unfold fat16Read.loop at h
    cases hr : fat16ReadInternal disk priv (Word.toInt (fat16GetFirstCluster item)) offset
        (Word.toInt size) out mem with
    | none =>
      rw [hr] at h
      cases h
    | some r =>
      obtain ⟨res₁, p₁, mem₁⟩ := r
      rw [hr] at h
      dsimp only at h
      rcases Int.lt_or_le res₁ 0 with hneg | hnonneg
      · rw [if_pos hneg] at h
        cases h
        omega
      · rw [if_neg (by omega)] at h
        obtain ⟨hv, hfirst⟩ := readInternal_walks hdisk hoff hr hnonneg
        obtain ⟨hend, hrest⟩ := fat16Read_loop_walks hdisk n p₁ _ _ _ _ _ _ _ _ (Word.int_int _) h
          hres
        have hmul : ∀ i, (i + 1) * size = size + i * size := fun i => by
          rw [Nat.succ_mul, Nat.add_comm]
        constructor
        · rw [hend, Word.int_int_add, hmul, Int.add_assoc, ← Int.natCast_add]
        · intro i hi j hj
          cases i with
          | zero =>
            rw [Nat.zero_mul, Nat.zero_add]
            exact hfirst j hj
          | succ i =>
            have hw := hrest i (by omega) j (by rw [hv.clusterSize]; exact hj)
            rw [hv.clusterSize, Word.int_int_add, (clusterForOffset_sameVolume disk hv _ _).1,
              Int.add_assoc, ← Int.natCast_add, ← Nat.add_assoc, ← hmul] at hw
            exact hw

/-- `fat16_read` fails and leaves the position, or moves it past everything it asked for. -/
theorem fat16Read_cases (hdisk : disk.sectorSize = 512) {desc desc' : FatFileDescriptor}
    {size nmemb out : Nat} {mem mem' : Mem} {res : Int}
    (h : fat16Read disk priv desc size nmemb out mem = some (res, priv', desc', mem')) :
    (res < 0 ∧ desc' = desc) ∨
    (res = Word.toInt nmemb ∧ desc' = { desc with pos := (desc.pos + nmemb * size) % 2 ^ 32 } ∧
      ¬ WalkFails disk priv (Word.toInt (fat16GetFirstCluster desc.item)) desc.pos size nmemb) := by
  unfold fat16Read at h
  cases hr : fat16Read.loop disk desc.item size nmemb priv 0 (Word.toInt desc.pos) out mem with
  | none =>
    rw [hr] at h
    cases h
  | some r =>
    obtain ⟨res₁, p₁, offset, mem₁⟩ := r
    rw [hr] at h
    dsimp only at h
    rcases Int.lt_or_le res₁ 0 with hneg | hnonneg
    · rw [if_pos hneg] at h
      cases h
      exact .inl ⟨hneg, rfl⟩
    · rw [if_neg (by omega)] at h
      cases h
      rw [Word.toInt_eq_int] at hr
      obtain ⟨hend, hwalks⟩ := fat16Read_loop_walks hdisk _ _ _ _ _ _ _ _ _ _ (Word.int_int _) hr
        hnonneg
      refine .inr ⟨rfl, ?_, ?_⟩
      · rw [hend, Word.int_int_add, Word.ofInt_int, ← Int.natCast_add, Word.ofInt_natCast_mod]
      · rintro ⟨i, hi, j, hj, hw⟩
        have hwalk := hwalks i hi j hj
        rw [Word.int_int_add, ← Int.natCast_add, ← Nat.add_assoc] at hwalk
        omega

/-! ## Calls -/

theorem fileGetDescriptor_update {files : Files} {desc desc' : FatFileDescriptor} {priv : FatPrivate}
    (h : fileGetDescriptor files fd = some desc) :
    fileGetDescriptor ⟨priv, Function.update files.descriptors (fd - 1).toNat (some desc')⟩ fd =
      some desc' := by
  unfold fileGetDescriptor at h ⊢
  split at h
  · cases h
  · rename_i hfd
    rw [if_neg hfd]
    exact Function.update_self _ _ _

/-- `fat16_seek` moves within the file, except where it adds to the position. -/
theorem fat16Seek_pos {desc : FatFileDescriptor} {offset mode : Nat}
    (h : desc.pos ≤ desc.item.filesize)
    (hcur : mode = seekCur → offset < desc.item.filesize →
      Word.add desc.pos offset ≤ desc.item.filesize) :
    (fat16Seek .file desc offset mode).2.item = desc.item ∧
      (fat16Seek .file desc offset mode).2.pos ≤ desc.item.filesize := by
  unfold fat16Seek
  split_ifs with htype hge hset hend hmode
  · exact ⟨rfl, h⟩
  · exact ⟨rfl, h⟩
  · exact ⟨rfl, (Nat.not_le.1 hge).le⟩
  · exact ⟨rfl, h⟩
  · exact ⟨rfl, hcur hmode (Nat.not_le.1 hge)⟩
  · exact ⟨rfl, h⟩

theorem OpenInside.seek {offset : Int} {whence : Nat} (h : OpenInside fd filesize s)
    (hw : (FileOp.seek offset whence).Within disk fd s) :
    OpenInside fd filesize ((FileOp.seek offset whence).step disk fd s) := by
  obtain ⟨desc, hdesc, hsize, hpos⟩ := h
  subst hsize
  obtain ⟨hitem, hle⟩ := fat16Seek_pos hpos (hw desc hdesc)
  refine ⟨(fat16Seek .file desc (Word.ofInt offset) whence).2, ?_, by rw [hitem], hle⟩
  unfold FileOp.step fseek
  rw [hdesc]
  exact fileGetDescriptor_update hdesc

/-- What a call of `fread` on an open file does to the descriptor. -/
theorem fread_cases (hdisk : disk.sectorSize = 512) {files files' : Files} {desc : FatFileDescriptor}
    {size nmemb ptr : Nat} {mem mem' : Mem} {res : Int}
    (hdesc : fileGetDescriptor files fd = some desc)
    (h : fread disk files ptr size nmemb fd mem = some (res, files', mem')) :
    (res < 0 ∧ fileGetDescriptor files' fd = some desc) ∨
    (res = Word.toInt nmemb ∧ size ≠ 0 ∧ nmemb ≠ 0 ∧
      fileGetDescriptor files' fd =
        some { desc with pos := (desc.pos + nmemb * size) % 2 ^ 32 } ∧
      ¬ WalkFails disk files.priv (Word.toInt (fat16GetFirstCluster desc.item)) desc.pos size
        nmemb) := by
  unfold fread at h
  split at h
  · cases h
    exact .inl ⟨by decide, hdesc⟩
  · rename_i hargs
    rw [hdesc] at h
    dsimp only at h
    cases hr : fat16Read disk files.priv desc size nmemb ptr mem with
    | none =>
      rw [hr] at h
      cases h
    | some r =>
      obtain ⟨res₁, p₁, desc₁, mem₁⟩ := r
      rw [hr] at h
      cases h
      rw [fileGetDescriptor_update hdesc]
      rcases fat16Read_cases hdisk hr with ⟨hneg, rfl⟩ | ⟨hres, rfl, hwalk⟩
      · exact .inl ⟨hneg, rfl⟩
      · exact .inr ⟨hres, fun h0 => hargs (.inl h0), fun h0 => hargs (.inr (.inl h0)), rfl, hwalk⟩

/-- What is delivered ends where the position is moved to. -/
theorem lt_of_mem_deliveredOffsets {pos size nmemb q : Nat} (hsize : size < 2 ^ 32)
    (h : q ∈ deliveredOffsets pos size nmemb) : size < 2 ^ 31 ∧ q < pos + nmemb * size := by
  obtain ⟨i, hi, k, hk, rfl⟩ := h
  have hlt : size < 2 ^ 31 := by
    by_contra hge
    rw [Word.toInt_of_ge (by omega) hsize] at hk
    omega
  rw [Word.toInt_of_lt hlt, Int.toNat_natCast] at hk
  have hmul := Nat.mul_le_mul_right size (show i + 1 ≤ nmemb from hi)
  rw [Nat.succ_mul] at hmul
  exact ⟨hlt, by omega⟩

theorem OpenInside.read {size nmemb ptr : Nat} (hdisk : disk.sectorSize = 512)
    (h : OpenInside fd filesize s) (hv : (FileOp.read size nmemb ptr).Valid)
    (hw : (FileOp.read size nmemb ptr).Within disk fd s) :
    OpenInside fd filesize ((FileOp.read size nmemb ptr).step disk fd s) ∧
      (FileOp.Succeeds disk fd s size nmemb ptr →
        ∀ desc, fileGetDescriptor s.files fd = some desc →
          ∀ q ∈ deliveredOffsets desc.pos size nmemb, q < desc.item.filesize) := by
  obtain ⟨desc, hdesc, rfl, hpos⟩ := h
  have hstep : FileOp.step disk fd s (.read size nmemb ptr) =
    match fread disk s.files ptr size nmemb fd s.mem with
    | none => s
    | some (_, files, mem) => ⟨files, mem⟩ := rfl
  rw [hstep]
  cases hr : fread disk s.files ptr size nmemb fd s.mem with
  | none =>
    refine ⟨⟨desc, hdesc, rfl, hpos⟩, ?_⟩
    rintro ⟨res, files, mem, hsome, -⟩
    rw [hr] at hsome
    cases hsome
  | some r =>
    obtain ⟨res, files, mem⟩ := r
    have hres : ∀ {res' files' mem'}, fread disk s.files ptr size nmemb fd s.mem =
        some (res', files', mem') → res' = res := fun h' => by
      rw [hr] at h'
      cases h'
      rfl
    rcases fread_cases hdisk hdesc hr with ⟨hneg, hsame⟩ | ⟨hok, hsize, hnmemb, hmoved, hwalk⟩
    · refine ⟨⟨desc, hsame, rfl, hpos⟩, ?_⟩
      rintro ⟨res', files', mem', hsome, hnonneg⟩
      have := hres hsome
      omega
    · obtain ⟨hend, hbytes⟩ := (((hw desc hdesc).resolve_left hsize).resolve_left hnmemb).resolve_left
        hwalk
      refine ⟨⟨_, hmoved, rfl, hend⟩, ?_⟩
      rintro ⟨res', files', mem', hsome, hnonneg⟩ desc' hdesc' q hq
      rw [hdesc] at hdesc'
      cases hdesc'
      obtain ⟨hlt, hqlt⟩ := lt_of_mem_deliveredOffsets hv.1 hq
      have hcount : nmemb < 2 ^ 31 := by
        by_contra hge
        have := hres hsome
        rw [this, hok, Word.toInt_of_ge (by omega) hv.2] at hnonneg
        have := hv.2
        omega
      exact hqlt.trans_le (hbytes hlt hcount)

theorem fileOp_inside {o : FileOp} (hdisk : disk.sectorSize = 512) (h : OpenInside fd filesize s)
    (ho : o.Valid ∧ o.Within disk fd s) :
    OpenInside fd filesize (o.step disk fd s) ∧ o.Inside disk fd s := by
  have hstep : OpenInside fd filesize (o.step disk fd s) := by
    cases o with
    | seek offset whence => exact h.seek ho.2
    | read size nmemb ptr => exact (h.read hdisk ho.1 ho.2).1
  refine ⟨hstep, fun desc hdesc => ⟨fun desc' hdesc' => ?_, ?_⟩⟩
  · obtain ⟨d, hd, hsize, -⟩ := h
    obtain ⟨d', hd', hsize', hpos⟩ := hstep
    rw [hdesc] at hd
    rw [hdesc'] at hd'
    cases hd
    cases hd'
    rw [hsize]
    exact hpos
  · cases o with
    | seek offset whence => trivial
    | read size nmemb ptr => exact fun hs => (h.read hdisk ho.1 ho.2).2 hs desc hdesc

/-- **Reads stay inside the file** in every run whose calls keep within it. -/
theorem file_reads_inside {ops : List FileOp} (hdisk : disk.sectorSize = 512)
    (h : OpenInside fd filesize s)
    (hs : Run.Steps (FileOp.step disk fd) (fun s o => o.Valid ∧ o.Within disk fd s) s ops) :
    OpenInside fd filesize (Run.exec (FileOp.step disk fd) s ops) ∧
      Run.Steps (FileOp.step disk fd) (FileOp.Inside disk fd) s ops :=
  ⟨Run.Steps.inv (I := OpenInside fd filesize) (fun _ _ h ho => (fileOp_inside hdisk h ho).1) h hs,
    Run.Steps.of_inv (I := OpenInside fd filesize) (fun _ _ h ho => (fileOp_inside hdisk h ho).1)
      (fun _ _ h ho => (fileOp_inside hdisk h ho).2) h hs⟩

end

theorem scatteredFiles_inside : OpenInside 1 600 ⟨scatteredFiles, fun _ => 0⟩ :=
  ⟨⟨scatteredItem, 0⟩, rfl, rfl, Nat.zero_le 600⟩

/-- The file after a relative seek. -/
theorem scatteredFiles_seek (pos offset : Nat) (h : offset < 600) (hsum : pos + offset < 2 ^ 32)
    {files : Files} (hdesc : fileGetDescriptor files 1 = some ⟨scatteredItem, pos⟩) (mem : Mem) :
    fileGetDescriptor ((FileOp.seek offset seekCur).step scatteredDisk 1 ⟨files, mem⟩).files 1 =
      some ⟨scatteredItem, pos + offset⟩ := by
  have hseek : fat16Seek .file ⟨scatteredItem, pos⟩ offset seekCur =
      (0, ⟨scatteredItem, pos + offset⟩) := by
    unfold fat16Seek
    rw [if_neg (by decide), if_neg (show ¬ offset ≥ scatteredItem.filesize from Nat.not_le.2 h),
      if_neg (by decide), if_neg (by decide), if_pos rfl, Word.add_of_lt hsum]
  unfold FileOp.step fseek
  dsimp only
  rw [hdesc, Word.ofInt_natCast (by omega)]
  dsimp only
  rw [hseek]
  exact fileGetDescriptor_update hdesc

theorem file_reads_inside_scattered :
    OpenInside 1 600 (Run.exec (FileOp.step scatteredDisk 1) ⟨scatteredFiles, fun _ => 0⟩
      [.seek (100 : Nat) seekCur, .read 100 5 0]) ∧
    Run.Steps (FileOp.step scatteredDisk 1) (FileOp.Inside scatteredDisk 1)
      ⟨scatteredFiles, fun _ => 0⟩ [.seek (100 : Nat) seekCur, .read 100 5 0] := by
  have hdesc : fileGetDescriptor scatteredFiles 1 = some ⟨scatteredItem, 0⟩ := rfl
  refine file_reads_inside rfl scatteredFiles_inside ⟨⟨trivial, ?_⟩,
    ⟨⟨by decide, by decide⟩, ?_⟩, trivial⟩
  · intro desc hd _ _
    rw [hdesc] at hd
    cases hd
    rw [Word.ofInt_natCast (by decide), Word.add_of_lt (by decide)]
    decide
  · intro desc hd
    rw [scatteredFiles_seek 0 100 (by decide) (by decide) hdesc] at hd
    cases hd
    exact .inr (.inr (.inr ⟨by decide, fun _ _ => by decide⟩))

/-- Two relative seeks of 400 bytes pass the end of a file of 600, and so does one read of 700. -/
theorem file_reads_leave :
    ¬ Run.Steps (FileOp.step scatteredDisk 1) (FileOp.Inside scatteredDisk 1)
      ⟨scatteredFiles, fun _ => 0⟩ [.seek (400 : Nat) seekCur, .seek (400 : Nat) seekCur] ∧
    ¬ Run.Steps (FileOp.step scatteredDisk 1) (FileOp.Inside scatteredDisk 1)
      ⟨scatteredFiles, fun _ => 0⟩ [.read 700 1 0] := by
  have hdesc : fileGetDescriptor scatteredFiles 1 = some ⟨scatteredItem, 0⟩ := rfl
  constructor
  · rintro ⟨-, hin, -⟩
    have hfirst := scatteredFiles_seek 0 400 (by decide) (by decide) hdesc
      fun _ => 0
    have hsecond := scatteredFiles_seek _ 400 (by decide) (by decide) hfirst fun _ => 0
    exact absurd ((hin _ hfirst).1 _ hsecond) (by decide)
  · rintro ⟨hin, -⟩
    obtain ⟨files, desc, hr, hdesc', hpos⟩ := fread_spec (s := 700) (n := 1) scatteredFiles_open 0
      (fun _ => 0) (by decide) (by decide) (by decide) fun i hi => by
        obtain rfl : i = 0 := by omega
        exact fits_of_pos scatteredFiles_open.mounted (by decide) (by decide) (by decide) (by decide)
    have hstep : (FileOp.step scatteredDisk 1 ⟨scatteredFiles, fun _ => 0⟩
        (.read 700 1 0)).files = files := by
      unfold FileOp.step
      dsimp only
      rw [hr]
    have hle := (hin _ hdesc).1 desc (by rw [hstep]; exact hdesc')
    rw [hpos] at hle
    exact absurd hle (by decide)

end Pandora
