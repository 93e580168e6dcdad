import Pandora.Fat.Lookup

/-!
# Lookups in a directory as loaded

The two ways a directory is loaded (`rootDirectoryLoaded`, `fatDirectoryLoaded`), with what is in the
array afterwards: the entries of the root directory, or those in the clusters of the subdirectory.
The number of entries counted is `liveItems` of the entries from the first sector on, on the disk.
-/

namespace Pandora

open ByteMem

/-! ## The count -/

section

variable {K : Fs} {sector start : Nat}

theorem totalItems_eq (hstart : Word.int (sector * K.disk.sectorSize) = (start : Nat))
    {L : Nat} (hends : EndsAt (directoryItems K.disk.image start) L)
    (hL : start + 32 * (L + 1) ≤ 2 ^ 31) :
    ∃ stream, fat16GetTotalItemsForDirectory K sector =
      some (((liveItems (directoryItems K.disk.image start) L : Nat) : Int),
        { K with priv := { K.priv with directoryStream := stream } }) := by
  have hfuel : ((2 ^ 31 - (start : Int)) / 32).toNat = (2 ^ 31 - start) / 32 := by omega
  obtain ⟨stream, hs⟩ := totalItems_loop_eq ((2 ^ 31 - start) / 32) start L 0 (by omega) hends
    (by omega)
  refine ⟨stream, ?_⟩
  unfold fat16GetTotalItemsForDirectory
  dsimp only [diskstreamerSeek]
  rw [if_neg (show ¬ (0 : Int) ≠ allOk by decide), hstart, hfuel, hs, Int.zero_add]

theorem endsAt_of_countEnds (hstart : Word.int (sector * K.disk.sectorSize) = (start : Nat))
    (hle : start ≤ 2 ^ 31) (h : CountEnds K.disk sector) :
    ∃ L, EndsAt (directoryItems K.disk.image start) L ∧ start + 32 * (L + 1) ≤ 2 ^ 31 := by
  obtain ⟨r, hr⟩ := h
  have hfuel : ((2 ^ 31 - (start : Int)) / 32).toNat = (2 ^ 31 - start) / 32 := by omega
  rw [hstart, hfuel] at hr
  obtain ⟨L, hL, hends⟩ := endsAt_of_loop (by omega) hr
  exact ⟨L, hends, by omega⟩

theorem liveItems_le (entry : Nat → FatDirectoryItem) (n : Nat) : liveItems entry n ≤ n :=
  Nat.count_le _

end

/-! ## The directories -/

/-- The position of the root directory. -/
def FatVolume.rootPos (priv : FatVolume) : Nat :=
  (priv.fatCopies * priv.sectorsPerFat + priv.reservedSectors) * 512

/-- The root directory, where it was loaded. -/
def rootDirectoryLoaded (K : Fs) : Option (FatDirectory × Fs) :=
  match fat16GetRootDirectory K with
  | none => none
  | some (res, directory, K') => if res = allOk then some (directory, K') else none

/-- The block of `p` is taken. -/
def Fs.Allocated (K : Fs) (p : Nat) : Prop := ¬ Free (K.entries (K.kmem.heap.blockOf p))

instance (K : Fs) (p : Nat) : Decidable (K.Allocated p) := by
  unfold Fs.Allocated
  infer_instance

/-- A subdirectory, where it was loaded and not freed again. -/
def fatDirectoryLoaded (K : Fs) (item : FatDirectoryItem) : Option (FatDirectory × Fs) :=
  match fat16LoadFatDirectory K item with
  | none => none
  | some (p, K') => if p ≠ 0 ∧ K'.Allocated p then some (K'.fatDirectoryAt p, K') else none

/-- Lookups in the directory as loaded are right. -/
def Finds (loaded : Option (FatDirectory × Fs)) (entry : Nat → FatDirectoryItem) (T : Nat) : Prop :=
  ∃ directory K, loaded = some (directory, K) ∧ LookupsRight K directory entry T

/-- The entries from `start` on the disk end below `2 ^ 31`, and as many as are in use before that
end are complete for the directory. -/
def CountComplete (K : Fs) (start : Nat) (entry : Nat → FatDirectoryItem) (T : Nat) : Prop :=
  ∃ L, EndsAt (directoryItems K.disk.image start) L ∧ start + 32 * (L + 1) ≤ 2 ^ 31 ∧
    Complete (liveItems (directoryItems K.disk.image start) L) entry T (·.Loadable K)

/-! ## The root directory -/

theorem Loadable_congr {K K' : Fs} (hdisk : K'.disk = K.disk)
    (hv : K.priv.toFatPrivate.SameVolume K'.priv.toFatPrivate) (item : FatDirectoryItem) :
    item.Loadable K' ↔ item.Loadable K := by
  unfold FatDirectoryItem.Loadable
  rw [hdisk, itemSector_congr hv]

section

variable {K : Fs} {T : Nat}

/-- The root directory is loaded whole, wherever its entries end. -/
theorem rootDirectory_counted (hk : K.kmem.heap.Kernel) (hc : Closed K.entries)
    (hmt : Mounted K.disk K.priv.toFatPrivate) (h1 : 1 ≤ K.priv.rootDirEntries)
    (hpos : K.priv.rootPos + 32 * K.priv.rootDirEntries ≤ 2 ^ 31)
    (hends : EndsAt (directoryItems K.disk.image K.priv.rootPos) T)
    (hT : K.priv.rootPos + 32 * (T + 1) ≤ 2 ^ 31)
    (hd : ∀ res directory K', fat16GetRootDirectory K = some (res, directory, K') →
      K'.kmem.denied = false) :
    ∃ directory K', fat16GetRootDirectory K = some (allOk, directory, K') ∧
      LoadedArray K' directory (liveItems (directoryItems K.disk.image K.priv.rootPos) T) ∧
      (∀ i < K.priv.rootDirEntries, K'.directoryItemsAt directory.item i =
        directoryItems K.disk.image K.priv.rootPos i) ∧
      K'.disk = K.disk ∧ K'.priv.toFatPrivate = K.priv.toFatPrivate := by
  obtain ⟨sector, hsector⟩ :
      ∃ sector, K.priv.fatCopies * K.priv.sectorsPerFat + K.priv.reservedSectors = sector := ⟨_, rfl⟩
  obtain ⟨start, hstart⟩ : ∃ start, K.priv.rootPos = start := ⟨_, rfl⟩
  have hsec : sector * 512 = start := by
    rw [← hsector, ← hstart]
    rfl
  rw [hstart] at hpos hends hT ⊢
  have hint : Word.int (sector * K.disk.sectorSize) = (start : Nat) := by
    rw [hmt.sectorSize, Word.int_of_mem (by omega) (by omega)]
    omega
  obtain ⟨stream, hcount⟩ := totalItems_eq hint hends (by omega)
  unfold fat16GetRootDirectory at hd ⊢
  dsimp only at hd ⊢
  rw [hsector, hcount] at hd ⊢
  dsimp only at hd ⊢
  have hsize : K.priv.rootDirEntries * sizeofFatDirectoryItem = 32 * K.priv.rootDirEntries :=
    Nat.mul_comm _ _
  rw [hsize] at hd ⊢
  obtain ⟨size, hsz⟩ : ∃ size, 32 * K.priv.rootDirEntries = size := ⟨_, rfl⟩
  rw [hsz] at hpos hd ⊢
  obtain ⟨total, htotal⟩ : ∃ total : Int, (if (size : Int).tmod K.disk.sectorSize ≠ 0 then
    (size : Int).tdiv K.disk.sectorSize + 1 else (size : Int).tdiv K.disk.sectorSize) = total :=
      ⟨_, rfl⟩
  rw [htotal] at hd ⊢
  unfold Fs.kzalloc at hd ⊢
  dsimp only at hd ⊢
  rcases kzalloc_cases hk (show size < 2 ^ 32 by omega) with he | ⟨b, n, k', he, ht⟩
  · -- no memory for the entries
    rw [he] at hd
    have hden := hd _ _ _ rfl
    cases hden
  · have hn := ht.pos (by omega) (by omega)
    obtain ⟨stream', hread⟩ := diskstreamerRead_spec K.disk size start (blockAddr b) k'.mem hpos
    rw [he]
    dsimp only
    unfold fat16GetRootDirectory.read
    dsimp only [diskstreamerSeek, Fs.mem]
    rw [if_neg (blockAddr_ne_zero b), if_neg (show ¬ (0 : Int) ≠ allOk by decide), hint, hread]
    dsimp only
    rw [if_neg (show ¬ (0 : Int) ≠ allOk by decide)]
    refine ⟨_, _, rfl, ⟨hmt, rfl, fun _ => ?_, fun i => ?_⟩, fun i hi => ?_, rfl, rfl⟩
    · exact ⟨ht.kernel, ⟨b, rfl, ht.self hn hc⟩, rfl, rfl, .refl _⟩
    · unfold Fs.setDirectoryItems
      dsimp only
      rw [Function.update_self]
      exact directoryItems_sized _ _ _
    · unfold Fs.setDirectoryItems
      dsimp only
      rw [Function.update_self]
      exact fatDirectoryItem_writeBytes _ _ _ _ _ _ (by omega)

theorem rootDirectory_loaded (hk : K.kmem.heap.Kernel) (hc : Closed K.entries)
    (hmt : Mounted K.disk K.priv.toFatPrivate)
    (hpos : K.priv.rootPos + 32 * K.priv.rootDirEntries ≤ 2 ^ 31)
    (hends : EndsAt (directoryItems K.disk.image K.priv.rootPos) T) (hT : T < K.priv.rootDirEntries)
    (hd : ∀ res directory K', fat16GetRootDirectory K = some (res, directory, K') →
      K'.kmem.denied = false) :
    ∃ directory K', fat16GetRootDirectory K = some (allOk, directory, K') ∧
      LoadedArray K' directory (liveItems (directoryItems K.disk.image K.priv.rootPos) T) ∧
      (∀ i < K.priv.rootDirEntries, K'.directoryItemsAt directory.item i =
        directoryItems K.disk.image K.priv.rootPos i) ∧
      K'.disk = K.disk ∧ K'.priv.toFatPrivate = K.priv.toFatPrivate :=
  rootDirectory_counted hk hc hmt (by omega) hpos hends (by omega) hd

theorem Complete.congr {n : Nat} {entry : Nat → FatDirectoryItem} {P Q : FatDirectoryItem → Prop}
    (h : Complete n entry T P) (hPQ : ∀ item, P item → Q item) : Complete n entry T Q :=
  ⟨h.le, h.live, fun i hi => hPQ _ (h.loads i hi), h.all⟩

/-- Lookups in a loaded directory, by what was true before it was loaded. -/
theorem LoadedArray.finds_iff {K' : Fs} {directory : FatDirectory} {entry : Nat → FatDirectoryItem}
    {n start L : Nat} (h : LoadedArray K' directory n) (hd : NeverDenied K' directory)
    (hitems : n ≤ T → ∀ i < n, K'.directoryItemsAt directory.item i = entry i)
    (hdisk : K'.disk = K.disk) (hv : K.priv.toFatPrivate.SameVolume K'.priv.toFatPrivate)
    (hends : EndsAt (directoryItems K.disk.image start) L) (hL : start + 32 * (L + 1) ≤ 2 ^ 31)
    (hn : liveItems (directoryItems K.disk.image start) L = n) :
    Finds (some (directory, K')) entry T ↔ CountComplete K start entry T := by
  constructor
  · rintro ⟨_, _, he, hright⟩
    cases he
    refine ⟨L, hends, hL, ?_⟩
    rw [hn]
    exact ((h.lookupsRight_iff hd hitems).1 hright).congr
      fun item => (Loadable_congr hdisk hv item).1
  · rintro ⟨L', hends', -, hc⟩
    obtain rfl := hends.unique hends'
    rw [hn] at hc
    refine ⟨directory, K', rfl, (h.lookupsRight_iff hd hitems).2 ?_⟩
    exact hc.congr fun item => (Loadable_congr hdisk hv item).2

theorem root_finds_iff (hk : K.kmem.heap.Kernel) (hc : Closed K.entries)
    (hmt : Mounted K.disk K.priv.toFatPrivate)
    (hpos : K.priv.rootPos + 32 * K.priv.rootDirEntries ≤ 2 ^ 31)
    (hends : EndsAt (directoryItems K.disk.image K.priv.rootPos) T) (hT : T < K.priv.rootDirEntries)
    (hd : ∀ res directory K', fat16GetRootDirectory K = some (res, directory, K') →
      K'.kmem.denied = false ∧ NeverDenied K' directory) :
    Finds (rootDirectoryLoaded K) (directoryItems K.disk.image K.priv.rootPos) T ↔
      CountComplete K K.priv.rootPos (directoryItems K.disk.image K.priv.rootPos) T := by
  obtain ⟨directory, K', he, hloaded, hitems, hdisk, hpriv⟩ := rootDirectory_loaded hk hc hmt hpos
    hends hT fun res directory K' he => (hd res directory K' he).1
  have hle := liveItems_le (directoryItems K.disk.image K.priv.rootPos) T
  have hv : K.priv.toFatPrivate.SameVolume K'.priv.toFatPrivate := hpriv ▸ .refl _
  unfold rootDirectoryLoaded
  rw [he]
  dsimp only
  rw [if_pos rfl]
  exact hloaded.finds_iff (hd _ _ _ he).2 (fun _ i hi => hitems i (by omega)) hdisk hv hends
    (by omega) rfl

end

/-! ## A subdirectory -/

section

variable {K : Fs} {T : Nat} {item : FatDirectoryItem} {c : Nat → Nat} {m : Nat}

theorem blockOf_blockAddr {heap : Heap} (hk : heap.Kernel) {b : Nat} (hb : b < 25600) :
    heap.blockOf (blockAddr b) = b := by
  rw [← hk.blockToAddress hb, blockOf_blockToAddress hk.shape.saddr_lt (by omega)]

/-- A directory that is freed is not allocated. -/
theorem freeDirectory_not_allocated (hk : K.kmem.heap.Kernel) {b : Nat} (hb : b < 25600) :
    ¬ (fat16FreeDirectory K (blockAddr b)).Allocated (blockAddr b) := by
  have hfollow : (K.follow (blockAddr b)).kmem.heap.Kernel := by
    have : (K.follow (blockAddr b)).kmem.heap = K.kmem.heap := follow_heap _ _
    rwa [this]
  have hfree : ∀ K₁ : Fs, K₁.kmem.heap.Kernel →
      ¬ (K₁.kfree (blockAddr b)).Allocated (blockAddr b) := fun K₁ h₁ => by
    have hblock : (K₁.kfree (blockAddr b)).kmem.heap.blockOf (blockAddr b) = b :=
      blockOf_blockAddr (h₁.kfree (blockAddr b)) hb
    unfold Fs.Allocated
    rw [hblock]
    exact not_not_intro (kfree_free h₁ hb)
  unfold fat16FreeDirectory
  rw [if_neg (blockAddr_ne_zero b)]
  dsimp only
  split
  · exact hfree _ (hfollow.kfree _)
  · exact hfree _ hfollow

/-- Where the entries of the subdirectory begin on the disk. -/
theorem itemSector_pos (hmt : Mounted K.disk K.priv.toFatPrivate)
    (hch : Chain K.disk K.priv.toFatPrivate c m) (hfirst : fat16GetFirstCluster item = c 0)
    (hsmall : c 0 < 2 ^ 31) :
    Word.int (K.priv.itemSector item * K.disk.sectorSize) = (K.priv.clusterPos (c 0) : Nat) ∧
      K.priv.clusterPos (c 0) + K.priv.clusterSize ≤ 2 ^ 31 := by
  have hsec := hch.sector 0 (Nat.zero_le m)
  have hpos := hch.pos 0 (Nat.zero_le m)
  have hcp : K.priv.clusterSector (c 0) * 512 = (K.priv.clusterPos (c 0) : Nat) := by
    unfold FatPrivate.clusterPos
    omega
  have hC := hmt.clusterSize_pos
  refine ⟨?_, hpos⟩
  unfold FatPrivate.itemSector
  rw [hfirst, Word.toInt_of_lt hsmall]
  have hsector : fat16ClusterToSector K.priv.toFatPrivate (c 0 : Nat) =
      K.priv.clusterSector (c 0) :=
    Word.int_of_mem (z := K.priv.clusterSector (c 0)) (by omega) (by omega)
  obtain ⟨s, hs⟩ := Int.eq_ofNat_of_zero_le hsec
  rw [hsector, hmt.sectorSize, hs, Word.ofInt_natCast (by omega), ← hs, hcp,
    Word.int_of_mem (by omega) (by omega)]

/-- The entries of the subdirectory, in the clusters of its chain. -/
def FatPrivate.chainItems (priv : FatPrivate) (disk : Disk) (c : Nat → Nat) :
    Nat → FatDirectoryItem :=
  directoryItems (fileByte disk priv c) 0

/-- Nothing is read. -/
theorem readInternal_zero {disk : Disk} {priv : FatPrivate} (h : Mounted disk priv) (first out : Nat)
    (mem : Mem) :
    ∃ priv' mem', fat16ReadInternal disk priv first 0 (0 : Nat) out mem =
      some (allOk, priv', mem') := by
  have hC := h.clusterSize_pos
  have hwalk : fat16GetClusterForOffset disk priv first 0 = ((first : Int), priv) := by
    unfold fat16GetClusterForOffset
    dsimp only
    rw [Int.zero_tdiv]
    rfl
  have hstatus := diskstreamerRead_status disk
    ⟨Word.int (fat16ClusterToSector priv first * disk.sectorSize + (0 : Int).tmod
      (priv.clusterSize : Nat))⟩ out 0 mem
  unfold fat16ReadInternal fat16ReadInternalFromStream
  rw [hwalk]
  dsimp only [diskstreamerSeek]
  rw [h.clusterBytes, if_neg (show ¬ (first : Int) < 0 by omega),
    if_neg (show ¬ (0 : Int) ≠ allOk by decide), if_neg (show ¬ ((0 : Nat) : Int) >
      (priv.clusterSize : Nat) by omega), if_neg (fun hne => hne hstatus),
    if_neg (show ¬ ((0 : Nat) : Int) - (0 : Nat) > 0 by decide)]
  dsimp only
  exact ⟨_, _, by rw [Int.natCast_zero, hstatus]⟩

/-- The entries that the array of a subdirectory is filled with. -/
theorem readInternal_items {disk : Disk} {priv : FatPrivate} (h : Mounted disk priv)
    (hch : Chain disk priv c m) (n : Nat) (hn : 32 * n ≤ 2 ^ 31) (out : Nat) (mem : Mem) :
    ∃ res priv' mem', fat16ReadInternal disk priv (c 0 : Nat) 0 (32 * n : Nat) out mem =
      some (res, priv', mem') ∧ (32 * n ≤ (m + 1) * priv.clusterSize → res = allOk ∧
        ∀ i < n, directoryItems mem' out i = priv.chainItems disk c i) := by
  rcases Nat.eq_zero_or_pos n with rfl | hpos
  · obtain ⟨priv', mem', hr⟩ := readInternal_zero h (c 0) out mem
    exact ⟨_, priv', mem', hr, fun _ => ⟨rfl, fun i hi => absurd hi (Nat.not_lt_zero i)⟩⟩
  · by_cases hend : 32 * n ≤ (m + 1) * priv.clusterSize
    · have hcut : 0 % priv.clusterSize = 0 ∨ 0 % priv.clusterSize + 32 * n ≤ priv.clusterSize :=
        .inl (Nat.zero_mod _)
      obtain ⟨s, s', hr⟩ := readInternal_spec h hch
        (.of_cut h hch (show 1 ≤ 32 * n by omega) (by omega) (by omega) hcut) out mem
      rw [slice_readByte_of_cut h.clusterSize_pos hcut] at hr
      exact ⟨_, _, _, hr, fun _ => ⟨rfl, fun i hi =>
        fatDirectoryItem_writeBytes _ _ _ _ _ _ (by omega)⟩⟩
    · obtain ⟨⟨res, priv', mem'⟩, hr⟩ := readInternal_some h (c 0 : Nat) 0 (32 * n : Nat) out mem
      exact ⟨res, priv', mem', hr, fun hle => absurd hle hend⟩

/-- What the load leaves once the entries are counted, `n` of them. -/
structure ReadOutcome (K K' : Fs) (d n T : Nat) (entry : Nat → FatDirectoryItem) : Prop where
  loaded : LoadedArray K' (K'.fatDirectoryAt d) n
  items : n ≤ T → ∀ i < n, K'.directoryItemsAt (K'.fatDirectoryAt d).item i = entry i
  disk : K'.disk = K.disk
  volume : K.priv.toFatPrivate.SameVolume K'.priv.toFatPrivate
  allocated : K'.Allocated d

theorem loadFatDirectory_read_loaded (hk : K.kmem.heap.Kernel) (hc : Closed K.entries)
    (hmt : Mounted K.disk K.priv.toFatPrivate) (hch : Chain K.disk K.priv.toFatPrivate c m)
    (hfirst : fat16GetFirstCluster item = c 0) (hsmall : c 0 < 2 ^ 31)
    (hT : 32 * (T + 1) ≤ (m + 1) * K.priv.clusterSize) {b : Nat} (hb : Held K.entries b) {L n : Nat}
    (hends : EndsAt (directoryItems K.disk.image (K.priv.clusterPos (c 0))) L)
    (hL : K.priv.clusterPos (c 0) + 32 * (L + 1) ≤ 2 ^ 31)
    (hn : liveItems (directoryItems K.disk.image (K.priv.clusterPos (c 0))) L = n) :
    ∃ K', fat16LoadFatDirectory.read K (blockAddr b) item = some (blockAddr b, K') ∧
      (K'.kmem.denied = true ∨ ReadOutcome K K' (blockAddr b) n T (K.priv.chainItems K.disk c) ∨
        ¬ n ≤ T ∧ ¬ K'.Allocated (blockAddr b)) := by
  obtain ⟨hint, hstart⟩ := itemSector_pos hmt hch hfirst hsmall
  obtain ⟨stream, hcount⟩ := totalItems_eq hint hends hL
  have hnL : n ≤ L := hn ▸ liveItems_le _ _
  rw [hn] at hcount
  have hsize : Word.ofInt (((n : Nat) : Int) * sizeofFatDirectoryItem) = 32 * n := by
    have hmul : ((n : Nat) : Int) * sizeofFatDirectoryItem = (32 * n : Nat) := by
      unfold sizeofFatDirectoryItem
      omega
    rw [hmul, Word.ofInt_natCast (by omega)]
  unfold FatPrivate.itemSector at hcount
  unfold fat16LoadFatDirectory.read
  dsimp only
  rw [hcount]
  dsimp only
  rw [hsize, Word.toInt_of_lt (show 32 * n < 2 ^ 31 by omega), hfirst, Word.toInt_of_lt hsmall]
  unfold Fs.kzalloc
  dsimp only
  rcases kzalloc_cases hk (show 32 * n < 2 ^ 32 by omega) with he | ⟨b', n', k', he, ht⟩
  · rw [he]
    dsimp only
    rw [if_pos rfl]
    exact ⟨_, rfl, .inl (freeDirectory_denied _ _)⟩
  · rw [he]
    dsimp only
    rw [if_neg (blockAddr_ne_zero b')]
    obtain ⟨res, priv', mem', hr, hgood⟩ := readInternal_items hmt hch n (by omega) (blockAddr b')
      k'.mem
    have hread : fat16ReadInternal K.disk K.priv.toFatPrivate (c 0 : Nat) 0 ((32 * n : Nat) : Int)
        (blockAddr b') k'.mem = some (res, priv', mem') := hr
    unfold Fs.setFatDirectory Fs.mem
    dsimp only
    rw [hread]
    dsimp only
    have hv := readInternal_sameVolume hr
    have hheld : Held k'.heap.table.entries b := ht.held hb
    have hblock : k'.heap.blockOf (blockAddr b) = b := blockOf_blockAddr ht.kernel hb.lt
    by_cases hres : res = allOk
    · rw [if_neg (not_not_intro hres)]
      obtain ⟨K₃, hK₃⟩ : ∃ K₃ : Fs, Fs.setDirectoryItems (Fs.setMem { K with
          kmem := k'
          priv := { K.priv with toFatPrivate := priv', directoryStream := stream }
          fatDirectoryAt := Function.update K.fatDirectoryAt (blockAddr b)
            { K.fatDirectoryAt (blockAddr b) with item := blockAddr b', total := (n : Nat) } } mem')
        (blockAddr b') (directoryItems mem' (blockAddr b')) = K₃ := ⟨_, rfl⟩
      have hdir : K₃.fatDirectoryAt (blockAddr b) =
          { K.fatDirectoryAt (blockAddr b) with item := blockAddr b', total := (n : Nat) } := by
        subst hK₃
        exact Function.update_self _ _ _
      have hitems : K₃.directoryItemsAt (blockAddr b') = directoryItems mem' (blockAddr b') := by
        subst hK₃
        exact Function.update_self _ _ _
      have hkmem : K₃.kmem.heap = k'.heap := by
        subst hK₃
        rfl
      have hentries : K₃.entries = k'.heap.table.entries := congrArg (fun h => h.table.entries) hkmem
      have hdisk : K₃.disk = K.disk := by
        subst hK₃
        rfl
      have hpriv : K₃.priv.toFatPrivate = priv' := by
        subst hK₃
        rfl
      refine ⟨K₃, by rw [← hK₃]; rfl, .inr (.inl ?_)⟩
      refine ⟨⟨?_, ?_, fun hpos => ?_, fun i => ?_⟩, fun hle i hi => ?_, hdisk, hpriv ▸ hv, ?_⟩
      · rw [hdisk, hpriv]
        obtain ⟨s, hs⟩ := hmt.stream
        have hstream := hv.stream
        rw [hs] at hstream
        exact ⟨hmt.sectorSize, hv.sectorsPerCluster ▸ hmt.sectors_pos,
          Option.isSome_iff_exists.1 hstream⟩
      · rw [hdir]
      · rw [hdir]
        refine ⟨hkmem ▸ ht.kernel, ⟨b', rfl, ?_⟩, rfl, rfl, .refl _⟩
        rw [hentries]
        exact ht.self (ht.pos (by omega) (by omega)) hc
      · rw [hdir, hitems]
        exact directoryItems_sized _ _ _
      · rw [hdir, hitems]
        exact (hgood (by omega)).2 i hi
      · unfold Fs.Allocated
        rw [hkmem, hblock, hentries]
        exact hheld.taken
    · rw [if_pos hres]
      refine ⟨_, rfl, .inr (.inr ⟨fun hle => hres (hgood ?_).1, ?_⟩)⟩
      · omega
      · refine freeDirectory_not_allocated ?_ hb.lt
        exact ht.kernel

/-- The outcomes of the load where the count ends. -/
theorem loadFatDirectory_loaded (hk : K.kmem.heap.Kernel) (hc : Closed K.entries)
    (hmt : Mounted K.disk K.priv.toFatPrivate) (hsub : item.Subdirectory)
    (hch : Chain K.disk K.priv.toFatPrivate c m) (hfirst : fat16GetFirstCluster item = c 0)
    (hsmall : c 0 < 2 ^ 31) (hT : 32 * (T + 1) ≤ (m + 1) * K.priv.clusterSize) {L n : Nat}
    (hends : EndsAt (directoryItems K.disk.image (K.priv.clusterPos (c 0))) L)
    (hL : K.priv.clusterPos (c 0) + 32 * (L + 1) ≤ 2 ^ 31)
    (hn : liveItems (directoryItems K.disk.image (K.priv.clusterPos (c 0))) L = n) :
    ∃ p K', fat16LoadFatDirectory K item = some (p, K') ∧
      (K'.kmem.denied = true ∨ p ≠ 0 ∧ ReadOutcome K K' p n T (K.priv.chainItems K.disk c) ∨
        ¬ n ≤ T ∧ ¬ K'.Allocated p) := by
  have hattribute : ¬ item.itemAttribute &&& fatFileSubdirectory = 0 := hsub
  unfold fat16LoadFatDirectory Fs.kzalloc
  dsimp only
  rw [if_neg hattribute]
  rcases kzalloc_cases hk (show sizeofFatDirectory < 2 ^ 32 by decide) with
    he | ⟨b, n', k', he, ht⟩
  · rw [he]
    exact ⟨0, _, rfl, .inl rfl⟩
  · rw [he]
    dsimp only
    rw [if_neg (blockAddr_ne_zero b)]
    obtain ⟨K₁, hK₁⟩ : ∃ K₁, Fs.setFatDirectory { K with kmem := k' } (blockAddr b) {} = K₁ :=
      ⟨_, rfl⟩
    have hk₁ : K₁.kmem.heap = k'.heap := by
      subst hK₁
      rfl
    have hdisk : K₁.disk = K.disk := by
      subst hK₁
      rfl
    have hpriv : K₁.priv = K.priv := by
      subst hK₁
      rfl
    have hentries : K₁.entries = k'.heap.table.entries := congrArg (fun h => h.table.entries) hk₁
    rw [hK₁]
    obtain ⟨K', hread, hout⟩ := loadFatDirectory_read_loaded (K := K₁) (L := L) (hk₁ ▸ ht.kernel)
      (hentries ▸ ht.closed hc) (by rw [hdisk, hpriv]; exact hmt)
      (by rw [hdisk, hpriv]; exact hch) hfirst hsmall (by rw [hpriv]; exact hT)
      (by rw [hentries]; exact ht.self (ht.pos (by decide) (by decide)) hc)
      (by rw [hdisk, hpriv]; exact hends) (by rw [hpriv]; exact hL) rfl
    rw [hdisk, hpriv, hn] at hout
    refine ⟨blockAddr b, K', hread, ?_⟩
    rcases hout with hdenied | hout | hfreed
    · exact .inl hdenied
    · exact .inr (.inl ⟨blockAddr_ne_zero b, hout.loaded, hout.items, hout.disk.trans hdisk,
        hpriv ▸ hout.volume, hout.allocated⟩)
    · exact .inr (.inr hfreed)

/-- Where the count does not end, there is no load either, unless the allocation before is denied. -/
theorem loadFatDirectory_none (hk : K.kmem.heap.Kernel) (hsub : item.Subdirectory)
    (hno : ¬ CountEnds K.disk (K.priv.itemSector item)) :
    fat16LoadFatDirectory K item = none ∨
      ∃ p K', fat16LoadFatDirectory K item = some (p, K') ∧ K'.kmem.denied = true := by
  have hattribute : ¬ item.itemAttribute &&& fatFileSubdirectory = 0 := hsub
  unfold fat16LoadFatDirectory Fs.kzalloc
  dsimp only
  rw [if_neg hattribute]
  rcases kzalloc_cases hk (show sizeofFatDirectory < 2 ^ 32 by decide) with
    he | ⟨b, n', k', he, -⟩
  · rw [he]
    exact .inr ⟨0, _, rfl, rfl⟩
  · rw [he]
    dsimp only
    rw [if_neg (blockAddr_ne_zero b)]
    refine .inl ?_
    rcases totalItems_cases (Fs.setFatDirectory { K with kmem := k' } (blockAddr b) {})
      (K.priv.itemSector item) with ⟨-, hnone⟩ | ⟨hyes, -⟩
    · unfold FatPrivate.itemSector at hnone
      unfold fat16LoadFatDirectory.read
      dsimp only [Fs.setFatDirectory] at hnone ⊢
      rw [hnone]
    · exact absurd hyes hno

theorem subdirectory_finds_iff (hk : K.kmem.heap.Kernel) (hc : Closed K.entries)
    (hmt : Mounted K.disk K.priv.toFatPrivate) (hsub : item.Subdirectory)
    (hch : Chain K.disk K.priv.toFatPrivate c m) (hfirst : fat16GetFirstCluster item = c 0)
    (hsmall : c 0 < 2 ^ 31) (hT : 32 * (T + 1) ≤ (m + 1) * K.priv.clusterSize)
    (hd : ∀ p K', fat16LoadFatDirectory K item = some (p, K') →
      K'.kmem.denied = false ∧ NeverDenied K' (K'.fatDirectoryAt p)) :
    Finds (fatDirectoryLoaded K item) (K.priv.chainItems K.disk c) T ↔
      CountComplete K (K.priv.clusterPos (c 0)) (K.priv.chainItems K.disk c) T := by
  have hnone : Finds none (K.priv.chainItems K.disk c) T → False := fun ⟨_, _, h, _⟩ => by cases h
  unfold fatDirectoryLoaded
  by_cases hex : ∃ L, EndsAt (directoryItems K.disk.image (K.priv.clusterPos (c 0))) L ∧
      K.priv.clusterPos (c 0) + 32 * (L + 1) ≤ 2 ^ 31
  · obtain ⟨L, hends, hL⟩ := hex
    obtain ⟨p, K', he, hout⟩ := loadFatDirectory_loaded hk hc hmt hsub hch hfirst hsmall hT hends hL
      rfl
    obtain ⟨hden, hnever⟩ := hd p K' he
    rw [he]
    dsimp only
    rcases hout with hdenied | ⟨hp, hout⟩ | ⟨hbig, hfreed⟩
    · rw [hdenied] at hden
      cases hden
    · rw [if_pos ⟨hp, hout.allocated⟩]
      exact hout.loaded.finds_iff hnever hout.items hout.disk hout.volume hends hL rfl
    · -- the directory was freed again: more entries were counted than it has
      rw [if_neg fun h => hfreed h.2]
      refine ⟨fun h => (hnone h).elim, ?_⟩
      rintro ⟨L', hends', -, hcomplete⟩
      obtain rfl := hends.unique hends'
      exact absurd hcomplete.le hbig
  · obtain ⟨hint, hpos⟩ := itemSector_pos hmt hch hfirst hsmall
    have hcount : ¬ CountEnds K.disk (K.priv.itemSector item) := fun hends =>
      hex (endsAt_of_countEnds hint (by omega) hends)
    have hright : ¬ CountComplete K (K.priv.clusterPos (c 0)) (K.priv.chainItems K.disk c) T := by
      rintro ⟨L, hends, hL, -⟩
      exact hex ⟨L, hends, hL⟩
    rcases loadFatDirectory_none hk hsub hcount with he | ⟨p, K', he, hdenied⟩
    · rw [he]
      exact ⟨fun h => (hnone h).elim, fun h => absurd h hright⟩
    · have hden := (hd p K' he).1
      rw [hdenied] at hden
      cases hden

end

/-! ## Lookups -/

/-- **Lookups are right exactly where the count is**: for the root directory and for every
subdirectory, along any chain of clusters. The entries end at `T`. -/
theorem directory_lookup_iff {K : Fs} (hk : K.kmem.heap.Kernel) (hc : Closed K.entries)
    (hmt : Mounted K.disk K.priv.toFatPrivate) :
    (∀ T, K.priv.rootPos + 32 * K.priv.rootDirEntries ≤ 2 ^ 31 →
      EndsAt (directoryItems K.disk.image K.priv.rootPos) T → T < K.priv.rootDirEntries →
      (∀ res directory K', fat16GetRootDirectory K = some (res, directory, K') →
        K'.kmem.denied = false ∧ NeverDenied K' directory) →
      (Finds (rootDirectoryLoaded K) (directoryItems K.disk.image K.priv.rootPos) T ↔
        CountComplete K K.priv.rootPos (directoryItems K.disk.image K.priv.rootPos) T)) ∧
    (∀ (item : FatDirectoryItem) (c : Nat → Nat) (m T : Nat), item.Subdirectory →
      Chain K.disk K.priv.toFatPrivate c m → fat16GetFirstCluster item = c 0 → c 0 < 2 ^ 31 →
      EndsAt (K.priv.chainItems K.disk c) T → 32 * (T + 1) ≤ (m + 1) * K.priv.clusterSize →
      (∀ p K', fat16LoadFatDirectory K item = some (p, K') →
        K'.kmem.denied = false ∧ NeverDenied K' (K'.fatDirectoryAt p)) →
      (Finds (fatDirectoryLoaded K item) (K.priv.chainItems K.disk c) T ↔
        CountComplete K (K.priv.clusterPos (c 0)) (K.priv.chainItems K.disk c) T)) :=
  ⟨fun _ hpos hends hT hd => root_finds_iff hk hc hmt hpos hends hT hd,
    fun _ _ _ _ hsub hch hfirst hsmall _ hT hd =>
      subdirectory_finds_iff hk hc hmt hsub hch hfirst hsmall hT hd⟩

/-! ## A small volume -/

section

variable {K K' : Fs} {n : Nat}

theorem room_freeDirectory (h : K.kmem.Room n) (d : Nat) : (fat16FreeDirectory K d).kmem.Room n := by
  unfold fat16FreeDirectory
  split
  · exact h
  · dsimp only
    split
    · exact ((h.follow d).kfree _).kfree _
    · exact (h.follow d).kfree _

/-- The root directory takes one block. -/
theorem room_rootDirectory (h : K.kmem.Room n) (hn : n < 25600) (h1 : 1 ≤ K.priv.rootDirEntries)
    (h2 : K.priv.rootDirEntries ≤ 128) {res : Int} {directory : FatDirectory}
    (he : fat16GetRootDirectory K = some (res, directory, K')) : K'.kmem.Room (n + 1) := by
  unfold fat16GetRootDirectory at he
  dsimp only at he
  rcases totalItems_cases K (K.priv.fatCopies * K.priv.sectorsPerFat + K.priv.reservedSectors) with
    ⟨-, hc⟩ | ⟨-, total, stream, hc⟩
  · rw [hc] at he
    cases he
  · obtain ⟨b, k', hz, -, hroom⟩ := h.kzalloc hn
      (K.priv.rootDirEntries * sizeofFatDirectoryItem)
      (by unfold sizeofFatDirectoryItem; omega) (by unfold sizeofFatDirectoryItem; omega)
    rw [hc] at he
    unfold Fs.kzalloc at he
    dsimp only at he
    rw [hz] at he
    unfold fat16GetRootDirectory.read at he
    dsimp only [diskstreamerSeek] at he
    rw [if_neg (blockAddr_ne_zero b), if_neg (show ¬ (0 : Int) ≠ allOk by decide),
      if_neg (fun hne => hne (diskstreamerRead_status _ _ _ _ _))] at he
    cases he
    exact ⟨hroom.kernel, hroom.free, hroom.denied⟩

/-- A subdirectory of at most 128 entries takes two blocks. -/
theorem room_loadFatDirectory (h : K.kmem.Room n) (hn : n + 1 < 25600) {item : FatDirectoryItem}
    (hcount : ∀ (K₁ : Fs) r, K₁.disk = K.disk → K₁.priv = K.priv →
      fat16GetTotalItemsForDirectory K₁ (K.priv.itemSector item) = some r → 1 ≤ r.1 ∧ r.1 ≤ 128)
    {p : Nat} (he : fat16LoadFatDirectory K item = some (p, K')) : K'.kmem.Room (n + 2) := by
  have hmono : ∀ {k : Kmem} {i j : Nat}, k.Room i → i ≤ j → k.Room j := fun hk hij =>
    ⟨hk.kernel, fun b hb hlt => hk.free b (by omega) hlt, hk.denied⟩
  unfold fat16LoadFatDirectory at he
  split at he
  · cases he
    exact hmono h (by omega)
  · obtain ⟨b, k', hz, -, hroom⟩ := h.kzalloc (show n < 25600 by omega)
      sizeofFatDirectory (by decide) (by decide)
    unfold Fs.kzalloc at he
    dsimp only at he
    rw [hz] at he
    dsimp only at he
    rw [if_neg (blockAddr_ne_zero b)] at he
    unfold fat16LoadFatDirectory.read at he
    dsimp only at he
    obtain ⟨K₁, hK₁⟩ : ∃ K₁, Fs.setFatDirectory { K with kmem := k' } (blockAddr b) {} = K₁ :=
      ⟨_, rfl⟩
    have hpriv : K₁.priv = K.priv := by
      subst hK₁
      rfl
    have hdisk : K₁.disk = K.disk := by
      subst hK₁
      rfl
    have hkmem : K₁.kmem = k' := by
      subst hK₁
      rfl
    rw [hK₁, hpriv] at he
    have hsector : Word.ofInt (fat16ClusterToSector K.priv.toFatPrivate
        (Word.toInt (fat16GetFirstCluster item))) = K.priv.itemSector item := rfl
    rw [hsector] at he
    rcases totalItems_cases K₁ (K.priv.itemSector item) with ⟨-, hc⟩ | ⟨-, total, stream, hc⟩
    · rw [hc] at he
      cases he
    · have htotal := hcount K₁ _ hdisk hpriv hc
      have hsize : Word.ofInt (total * sizeofFatDirectoryItem) =
          (total * sizeofFatDirectoryItem).toNat := by
        obtain ⟨t, ht⟩ : ∃ t : Nat, total = t := ⟨total.toNat, by omega⟩
        subst ht
        have hmul : ((t : Nat) : Int) * sizeofFatDirectoryItem = (32 * t : Nat) := by
          unfold sizeofFatDirectoryItem
          omega
        rw [hmul, Word.ofInt_natCast (by omega), Int.toNat_natCast]
      obtain ⟨b', k'', hz', -, hroom'⟩ := hroom.kzalloc hn
        (Word.ofInt (total * sizeofFatDirectoryItem))
        (by rw [hsize]; unfold sizeofFatDirectoryItem; omega)
        (by rw [hsize]; unfold sizeofFatDirectoryItem; omega)
      rw [hc] at he
      unfold Fs.kzalloc at he
      dsimp only at he
      rw [hkmem, hz'] at he
      dsimp only at he
      rw [if_neg (blockAddr_ne_zero b')] at he
      split at he
      · cases he
      · cases he
        split
        · exact room_freeDirectory ⟨hroom'.kernel, hroom'.free, hroom'.denied⟩ _
        · exact ⟨hroom'.kernel, hroom'.free, hroom'.denied⟩

/-- In a directory of one file a lookup takes at most two blocks. -/
theorem neverDenied_one {directory : FatDirectory} (h : LoadedArray K directory 1)
    (hfile : (K.directoryItemsAt directory.item 0).itemAttribute &&& fatFileSubdirectory = 0)
    (hroom : K.kmem.Room n) (hn : n + 1 < 25600) : NeverDenied K directory := by
  intro name p K' he
  unfold fat16FindItemInDirectory at he
  rw [h.total, Int.toNat_natCast] at he
  unfold fat16FindItemInDirectory.loop fat16FindItemInDirectory.loop at he
  dsimp only at he
  split at he
  · unfold fat16NewFatItemForDirectoryItem fat16CloneDirectoryItem Fs.kzalloc at he
    dsimp only at he
    rw [hfile, if_neg (not_not_intro rfl)] at he
    obtain ⟨b, k', hz, -, hk'⟩ := hroom.kzalloc (show n < 25600 by omega) sizeofFatItem
      (by decide) (by decide)
    obtain ⟨b', k'', hz', -, hk''⟩ := hk'.kzalloc hn sizeofFatDirectoryItem (by decide)
      (by decide)
    rw [hz] at he
    dsimp only at he
    rw [hz'] at he
    dsimp only at he
    rw [if_neg (blockAddr_ne_zero b), if_neg (blockAddr_ne_zero b')] at he
    cases he
    exact hk''.denied
  · cases he
    exact hroom.denied

end

/-- A disk with entries of these first bytes, and no more letters in the name, in sector 2, where the
root directory begins, and in sector 3, which is cluster 2. -/
def letterDisk (marks : List UInt8) : Disk where
  image := fun p =>
    if (p / 512 = 2 ∨ p / 512 = 3) ∧ p % 512 / 32 < marks.length then
      if p % 32 = 0 then marks.getD (p % 512 / 32) 0 else if p % 32 < 11 then 0x20 else 0
    else 0

def letterVolume : FatVolume where
  reservedSectors := 1
  sectorsPerCluster := 1
  endingSectorPos := 3
  rootDirEntries := 16
  fatCopies := 1
  sectorsPerFat := 1

def letterFs (marks : List UInt8) : Fs where
  kmem := bootKmem
  disk := letterDisk marks
  hasFilesystem := true
  priv := letterVolume
  pathRootAt := fun _ => {}
  pathPartAt := fun _ => {}
  fatItemAt := fun _ => {}
  fatDirectoryAt := fun _ => {}
  directoryItemsAt := fun _ _ => ⟨[], [], 0, 0, 0, 0⟩
  fatDescriptorAt := fun _ => {}
  fileDescriptorAt := fun _ => {}
  fileDescriptors := fun _ => 0

/-- The entry of a subdirectory at cluster 2. -/
def clusterTwo : FatDirectoryItem where
  itemAttribute := fatFileSubdirectory
  high16BitsFirstCluster := 0
  low16BitsFirstCluser := 2

theorem clusterTwo_subdirectory : clusterTwo.Subdirectory :=
  show fatFileSubdirectory &&& fatFileSubdirectory ≠ 0 by decide

theorem letterFs_mounted (marks : List UInt8) :
    Mounted (letterFs marks).disk (letterFs marks).priv.toFatPrivate :=
  ⟨rfl, Nat.le_refl 1, _, rfl⟩

theorem letterFs_closed (marks : List UInt8) : Closed (letterFs marks).entries := fun _ _ _ =>
  show entryFree &&& hasNext = 0 by decide

theorem letterFs_chain (marks : List UInt8) :
    Chain (letterFs marks).disk (letterFs marks).priv.toFatPrivate (· + 2) 0 where
  linked := fun i hi => absurd hi (Nat.not_lt_zero i)
  linkOk := fun i hi => absurd hi (Nat.not_lt_zero i)
  entryPos := fun i hi => absurd hi (Nat.not_lt_zero i)
  sector := show ∀ i ≤ 0, 0 ≤ letterVolume.clusterSector (i + 2) by decide
  pos := show ∀ i ≤ 0, letterVolume.clusterPos (i + 2) + letterVolume.clusterSize ≤ 2 ^ 31 by decide

/-- One file, named "A". -/
theorem letterFs_ends :
    EndsAt (directoryItems (letterFs [0x41]).disk.image 1024) 1 ∧
      EndsAt (directoryItems (letterFs [0x41]).disk.image 1536) 1 ∧
      EndsAt ((letterFs [0x41]).priv.chainItems (letterFs [0x41]).disk (· + 2)) 1 :=
  ⟨⟨by decide, by decide⟩, ⟨by decide, by decide⟩, ⟨by decide, by decide⟩⟩

/-- Nothing is denied in these directories of one file. -/
theorem letterFs_root_served (res : Int) (directory : FatDirectory) (K' : Fs)
    (he : fat16GetRootDirectory (letterFs [0x41]) = some (res, directory, K')) :
    K'.kmem.denied = false ∧ NeverDenied K' directory := by
  have hroom := room_rootDirectory (K := letterFs [0x41]) bootKmem_room (by decide) (by decide)
    (by decide) he
  refine ⟨hroom.denied, ?_⟩
  obtain ⟨directory', K'', he', hloaded, hitems, -, -⟩ := rootDirectory_loaded
    (K := letterFs [0x41]) bootKmem_kernel (letterFs_closed _) (letterFs_mounted _) (by decide)
    letterFs_ends.1 (by decide) fun _ _ _ he' =>
      (room_rootDirectory (K := letterFs [0x41]) bootKmem_room (by decide) (by decide) (by decide)
        he').denied
  have heq := he.symm.trans he'
  cases heq
  have hone : liveItems (directoryItems (letterFs [0x41]).disk.image
      (letterFs [0x41]).priv.rootPos) 1 = 1 := by decide
  rw [hone] at hloaded
  refine neverDenied_one hloaded ?_ hroom (by decide)
  rw [hitems 0 (by decide)]
  decide

theorem letterFs_cluster_served (p : Nat) (K' : Fs)
    (he : fat16LoadFatDirectory (letterFs [0x41]) clusterTwo = some (p, K')) :
    K'.kmem.denied = false ∧ NeverDenied K' (K'.fatDirectoryAt p) := by
  have hone : liveItems (directoryItems (letterFs [0x41]).disk.image
      ((letterFs [0x41]).priv.clusterPos 2)) 1 = 1 := by decide
  have hint := (itemSector_pos (letterFs_mounted [0x41]) (letterFs_chain [0x41])
    (show fat16GetFirstCluster clusterTwo = 2 from rfl) (by decide)).1
  have hroom : K'.kmem.Room (0 + 2) := by
    refine room_loadFatDirectory (K := letterFs [0x41]) bootKmem_room (by decide)
      (fun K₁ r hdisk hpriv hr => ?_) he
    rw [← hdisk] at hint
    obtain ⟨stream, hs⟩ := totalItems_eq (K := K₁) (L := 1) hint
      (by rw [hdisk]; exact letterFs_ends.2.1) (by decide)
    rw [hr] at hs
    cases hs
    rw [hdisk, hone]
    exact ⟨Int.le_refl 1, show ((1 : Nat) : Int) ≤ 128 by decide⟩
  refine ⟨hroom.denied, ?_⟩
  obtain ⟨p', K'', he', hout⟩ := loadFatDirectory_loaded (K := letterFs [0x41]) (T := 1)
    bootKmem_kernel (letterFs_closed _) (letterFs_mounted _) clusterTwo_subdirectory
    (letterFs_chain _) rfl (by decide) (by decide) letterFs_ends.2.1 (by decide) hone
  have heq := he.symm.trans he'
  cases heq
  rcases hout with hdenied | ⟨-, hout⟩ | ⟨hbig, -⟩
  · rw [hroom.denied] at hdenied
    cases hdenied
  · refine neverDenied_one hout.loaded ?_ hroom (by decide)
    rw [hout.items (Nat.le_refl 1) 0 (by decide)]
    decide
  · exact absurd (Nat.le_refl 1) hbig

theorem directory_lookup_iff_letter :
    (Finds (rootDirectoryLoaded (letterFs [0x41]))
      (directoryItems (letterDisk [0x41]).image letterVolume.rootPos) 1 ↔
      CountComplete (letterFs [0x41]) letterVolume.rootPos
        (directoryItems (letterDisk [0x41]).image letterVolume.rootPos) 1) ∧
    (Finds (fatDirectoryLoaded (letterFs [0x41]) clusterTwo)
      (letterVolume.chainItems (letterDisk [0x41]) (· + 2)) 1 ↔
      CountComplete (letterFs [0x41]) (letterVolume.clusterPos 2)
        (letterVolume.chainItems (letterDisk [0x41]) (· + 2)) 1) :=
  have h := directory_lookup_iff (K := letterFs [0x41]) bootKmem_kernel (letterFs_closed _)
    (letterFs_mounted _)
  ⟨h.1 1 (by decide) letterFs_ends.1 (by decide) letterFs_root_served,
    h.2 clusterTwo (· + 2) 0 1 clusterTwo_subdirectory (letterFs_chain _) rfl (by decide) letterFs_ends.2.2
      (by decide) letterFs_cluster_served⟩

/-- A deleted entry comes first: only it is searched, and the file "A" behind it is not found. -/
theorem directory_lookup_misses :
    ¬ Finds (rootDirectoryLoaded (letterFs [0xE5, 0x41]))
      (directoryItems (letterDisk [0xE5, 0x41]).image letterVolume.rootPos) 2 := by
  have hends : EndsAt (directoryItems (letterFs [0xE5, 0x41]).disk.image 1024) 2 :=
    ⟨by decide, by decide⟩
  obtain ⟨directory', K'', he', hloaded, hitems, -, -⟩ := rootDirectory_loaded
    (K := letterFs [0xE5, 0x41]) bootKmem_kernel (letterFs_closed _) (letterFs_mounted _) (by decide)
    hends (by decide) fun _ _ _ he' =>
      (room_rootDirectory (K := letterFs [0xE5, 0x41]) bootKmem_room (by decide) (by decide)
        (by decide) he').denied
  have hone : liveItems (directoryItems (letterFs [0xE5, 0x41]).disk.image
      (letterFs [0xE5, 0x41]).priv.rootPos) 2 = 1 := by decide
  rw [hone] at hloaded
  rintro ⟨directory, K', he, hright⟩
  unfold rootDirectoryLoaded at he
  rw [he'] at he
  dsimp only at he
  rw [if_pos rfl] at he
  cases he
  obtain ⟨p, K₁, hfind, hiff, -⟩ := hright [0x41] (by decide)
  have hp : p ≠ 0 := hiff.2 ⟨1, by decide, by decide, by decide⟩
  unfold fat16FindItemInDirectory at hfind
  rw [hloaded.total, Int.toNat_natCast] at hfind
  unfold fat16FindItemInDirectory.loop fat16FindItemInDirectory.loop at hfind
  dsimp only at hfind
  rw [hitems 0 (by decide), if_neg (by decide)] at hfind
  cases hfind
  exact hp rfl

end Pandora
