import Pandora.Fat.Names
import Pandora.Fat.Seek
import Pandora.Heap.Held

/-!
# Looking up a name in a directory (`fs/fat/fat16.c`)

A lookup compares the name with as many entries of the array as were counted, and for each that has
it a new item is built; the last one is returned. Building items takes blocks, and loading a
subdirectory may fail and give blocks back, but the array of the directory stays (`Keeps`).

The count passes over deleted entries and the array does not, and for a subdirectory the count reads
on behind the first cluster where the array follows the chain. `Complete` is what makes the two
agree: the entries counted, at the front of the array, are in use, and have the names of all the
entries in use. `directory_lookup_iff` shows that lookups are right exactly then.
-/

namespace Pandora

open ByteMem

/-! ## The reading functions, for any outcome -/

section

variable {disk : Disk}

theorem readFromStream_sameVolume (first : Int) :
    ∀ (fuel : Nat) (priv : FatPrivate) (stream : DiskStream) (offset total : Int) (out : Nat)
      (mem : Mem) (res : Int) (p : FatPrivate) (st : DiskStream) (mem' : Mem),
      fat16ReadInternalFromStream disk fuel priv stream first offset total out mem =
        some (res, p, st, mem') → priv.SameVolume p
  | 0, _, _, _, _, _, _, _, _, _, _, h => by cases h
  | fuel + 1, priv, stream, offset, total, out, mem, res, p, st, mem', h => by
    obtain ⟨-, hv⟩ := clusterForOffset_sameVolume disk (.refl priv) first offset
    unfold fat16ReadInternalFromStream at h
    dsimp only [diskstreamerSeek] at h
    by_cases hneg : (fat16GetClusterForOffset disk priv first offset).1 < 0
    · rw [if_pos hneg] at h
      cases h
      exact hv
    · rw [if_neg hneg, if_neg (show ¬ (0 : Int) ≠ allOk by decide),
        if_neg (fun hne => hne (diskstreamerRead_status _ _ _ _ _))] at h
      obtain ⟨piece, hpiece⟩ : ∃ piece, (if total > priv.sectorsPerCluster * disk.sectorSize then
        priv.sectorsPerCluster * disk.sectorSize else total) = piece := ⟨_, rfl⟩
      rw [hpiece] at h
      by_cases hleft : total - piece > 0
      · rw [if_pos hleft] at h
        exact hv.trans (readFromStream_sameVolume first fuel _ _ _ _ _ _ _ _ _ _ h)
      · rw [if_neg hleft] at h
        cases h
        exact hv

theorem readInternal_sameVolume {priv priv' : FatPrivate} {first offset total res : Int} {out : Nat}
    {mem mem' : Mem}
    (h : fat16ReadInternal disk priv first offset total out mem = some (res, priv', mem')) :
    priv.SameVolume priv' := by
  unfold fat16ReadInternal at h
  cases hr : fat16ReadInternalFromStream disk (total.toNat + 1) priv priv.clusterReadStream first
      offset total out mem with
  | none =>
    rw [hr] at h
    cases h
  | some r =>
    obtain ⟨res', p, st, mem''⟩ := r
    rw [hr] at h
    cases h
    have hv := readFromStream_sameVolume first _ _ _ _ _ _ _ _ _ _ _ hr
    exact ⟨hv.1, hv.2, hv.3, hv.4⟩

/-- Every round but the last reads a whole cluster. -/
theorem readFromStream_some (hdisk : disk.sectorSize = 512) (first : Int) :
    ∀ (fuel : Nat) (priv : FatPrivate) (stream : DiskStream) (offset total : Int) (out : Nat)
      (mem : Mem), 1 ≤ priv.sectorsPerCluster → total.toNat < fuel →
      ∃ r, fat16ReadInternalFromStream disk fuel priv stream first offset total out mem = some r
  | 0, _, _, _, _, _, _, _, h => absurd h (Nat.not_lt_zero _)
  | fuel + 1, priv, stream, offset, total, out, mem, hsec, hfuel => by
    obtain ⟨-, hv⟩ := clusterForOffset_sameVolume disk (.refl priv) first offset
    have hC : 512 ≤ (priv.sectorsPerCluster : Int) * disk.sectorSize := by
      rw [hdisk]
      omega
    unfold fat16ReadInternalFromStream
    dsimp only [diskstreamerSeek]
    by_cases hneg : (fat16GetClusterForOffset disk priv first offset).1 < 0
    · rw [if_pos hneg]
      exact ⟨_, rfl⟩
    · rw [if_neg hneg, if_neg (show ¬ (0 : Int) ≠ allOk by decide),
        if_neg (fun hne => hne (diskstreamerRead_status _ _ _ _ _))]
      obtain ⟨C, hCC⟩ : ∃ C, (priv.sectorsPerCluster : Int) * disk.sectorSize = C := ⟨_, rfl⟩
      rw [hCC] at hC ⊢
      obtain ⟨piece, hpiece⟩ : ∃ piece, (if total > C then C else total) = piece := ⟨_, rfl⟩
      rw [hpiece]
      by_cases hleft : total - piece > 0
      · have hbig : total > C := by
          by_contra hle
          rw [if_neg hle] at hpiece
          omega
        rw [if_pos hbig] at hpiece
        rw [if_pos hleft]
        exact readFromStream_some hdisk first fuel _ _ _ _ _ _ (hv.sectorsPerCluster ▸ hsec)
          (by omega)
      · rw [if_neg hleft]
        exact ⟨_, rfl⟩

theorem readInternal_some {priv : FatPrivate} (h : Mounted disk priv) (first offset total : Int)
    (out : Nat) (mem : Mem) :
    ∃ r, fat16ReadInternal disk priv first offset total out mem = some r := by
  obtain ⟨⟨res, p, st, mem'⟩, hr⟩ := readFromStream_some h.sectorSize first (total.toNat + 1) priv
    priv.clusterReadStream offset total out mem h.sectors_pos (Nat.lt_succ_self _)
  unfold fat16ReadInternal
  rw [hr]
  exact ⟨_, rfl⟩

end

/-! ## An array that stays -/

/-- In `K` the array at `a` is as it was in `K₀`, and its block is held. -/
structure Keeps (a : Nat) (K₀ K : Fs) : Prop where
  kernel : K.kmem.heap.Kernel
  held : ∃ b, a = blockAddr b ∧ Held K.entries b
  items : K.directoryItemsAt a = K₀.directoryItemsAt a
  disk : K.disk = K₀.disk
  volume : K₀.priv.toFatPrivate.SameVolume K.priv.toFatPrivate

/-- `p` is the address of another block. -/
def Other (a p : Nat) : Prop := ∃ b < 25600, p = blockAddr b ∧ p ≠ a

section

variable {a p size : Nat} {K₀ K K' : Fs}

theorem Other.ne_zero (h : Other a p) : p ≠ 0 := by
  obtain ⟨b, -, rfl, -⟩ := h
  exact blockAddr_ne_zero b

theorem Keeps.kzalloc (h : Keeps a K₀ K) (hsize : size < 2 ^ 32) :
    ∃ p K', K.kzalloc size = (p, K') ∧ Keeps a K₀ K' ∧ K'.fatDirectoryAt = K.fatDirectoryAt ∧
      (p = 0 ∧ K'.kmem.denied = true ∨ Other a p ∧ K'.kmem.denied = K.kmem.denied) := by
  obtain ⟨b, ha, hb⟩ := h.held
  unfold Fs.kzalloc
  rcases kzalloc_cases h.kernel hsize with he | ⟨b', n, k', he, ht⟩
  · rw [he]
    exact ⟨0, _, rfl, ⟨h.kernel, ⟨b, ha, hb⟩, h.items, h.disk, h.volume⟩, rfl, .inl ⟨rfl, rfl⟩⟩
  · rw [he]
    have hne : blockAddr b' ≠ a := by
      rw [ha]
      exact fun he => ht.ne hb.taken (blockAddr_inj.1 he)
    exact ⟨_, _, rfl, ⟨ht.kernel, ⟨b, ha, ht.held hb⟩, h.items, h.disk, h.volume⟩, rfl,
      .inr ⟨⟨b', ht.lt, rfl, hne⟩, ht.denied⟩⟩

theorem Keeps.follow (h : Keeps a K₀ K) (p : Nat) : Keeps a K₀ (K.follow p) := by
  have hheap : (K.follow p).kmem.heap = K.kmem.heap := follow_heap K.kmem p
  have hentries : (K.follow p).entries = K.entries := congrArg (fun h => h.table.entries) hheap
  exact ⟨hheap ▸ h.kernel, hentries ▸ h.held, h.items, h.disk, h.volume⟩

theorem Keeps.kfree (h : Keeps a K₀ K) (hp : Other a p) : Keeps a K₀ (K.kfree p) := by
  obtain ⟨b, ha, hb⟩ := h.held
  obtain ⟨b', hb', rfl, hne⟩ := hp
  have hheld : Held (K.kfree (blockAddr b')).entries b := by
    refine hb.kfree h.kernel ?_
    rw [freedBlock_blockAddr hb']
    rintro rfl
    exact hne ha.symm
  exact ⟨h.kernel.kfree _, ⟨b, ha, hheld⟩, h.items, h.disk, h.volume⟩

theorem kfree_denied' (K : Fs) (p : Nat) : (K.kfree p).kmem.denied = K.kmem.denied :=
  kfree_denied K.kmem p

theorem freeDirectory_denied (K : Fs) (d : Nat) :
    (fat16FreeDirectory K d).kmem.denied = K.kmem.denied := by
  have hdenied : (K.follow d).kmem.denied = K.kmem.denied := follow_denied K.kmem d
  unfold fat16FreeDirectory
  split
  · rfl
  · dsimp only
    split
    · rw [kfree_denied', kfree_denied', hdenied]
    · rw [kfree_denied', hdenied]

theorem Keeps.freeDirectory {d : Nat} (h : Keeps a K₀ K) (hd : Other a d)
    (hitem : (K.fatDirectoryAt d).item = 0 ∨ Other a (K.fatDirectoryAt d).item) :
    Keeps a K₀ (fat16FreeDirectory K d) := by
  have hf := h.follow d
  unfold fat16FreeDirectory
  rw [if_neg hd.ne_zero]
  dsimp only
  rcases hitem with hitem | hitem
  · have hzero : ¬ ((K.follow d).fatDirectoryAt d).item ≠ 0 := not_not_intro hitem
    rw [if_neg hzero]
    exact hf.kfree hd
  · have hother : Other a ((K.follow d).fatDirectoryAt d).item := hitem
    rw [if_pos hother.ne_zero]
    exact (hf.kfree hother).kfree hd

end

/-! ## Loading a subdirectory -/

/-- The entry is that of a subdirectory. -/
def FatDirectoryItem.Subdirectory (item : FatDirectoryItem) : Prop :=
  item.itemAttribute &&& fatFileSubdirectory ≠ 0

/-- The count of the entries from the sector on ends. -/
def CountEnds (disk : Disk) (sector : Nat) : Prop :=
  ∃ r, fat16GetTotalItemsForDirectory.loop disk
    ((2 ^ 31 - Word.int (sector * disk.sectorSize)) / 32).toNat ⟨Word.int (sector * disk.sectorSize)⟩
    0 = some r

/-- The sector at which the subdirectory begins. -/
def FatPrivate.itemSector (priv : FatPrivate) (item : FatDirectoryItem) : Nat :=
  Word.ofInt (fat16ClusterToSector priv (Word.toInt (fat16GetFirstCluster item)))

section

variable {a sector : Nat} {K₀ K K' : Fs} {item : FatDirectoryItem}

theorem itemSector_congr {priv priv' : FatPrivate} (h : priv.SameVolume priv')
    (item : FatDirectoryItem) : priv'.itemSector item = priv.itemSector item := by
  unfold FatPrivate.itemSector fat16ClusterToSector
  rw [h.endingSectorPos, h.sectorsPerCluster]

/-- The count moves the stream of directories, and nothing else. -/
theorem totalItems_cases (K : Fs) (sector : Nat) :
    (¬ CountEnds K.disk sector ∧ fat16GetTotalItemsForDirectory K sector = none) ∨
    (CountEnds K.disk sector ∧ ∃ total stream, fat16GetTotalItemsForDirectory K sector =
      some (total, { K with priv := { K.priv with directoryStream := stream } })) := by
  unfold fat16GetTotalItemsForDirectory CountEnds
  dsimp only [diskstreamerSeek]
  rw [if_neg (show ¬ (0 : Int) ≠ allOk by decide)]
  cases hl : fat16GetTotalItemsForDirectory.loop K.disk
      ((2 ^ 31 - Word.int (sector * K.disk.sectorSize)) / 32).toNat
      ⟨Word.int (sector * K.disk.sectorSize)⟩ 0 with
  | none =>
    refine .inl ⟨?_, rfl⟩
    rintro ⟨r, hr⟩
    cases hr
  | some r => exact .inr ⟨⟨r, rfl⟩, r.1, r.2, rfl⟩

/-- What an operation does while the array at `a` stays: no denied allocation is forgotten. -/
structure Steps (a : Nat) (K₀ K K' : Fs) : Prop where
  keeps : Keeps a K₀ K'
  denied : K'.kmem.denied = false → K.kmem.denied = false

theorem loadFatDirectory_read_cases (h : Keeps a K₀ K) (hmt : Mounted K₀.disk K₀.priv.toFatPrivate)
    {d : Nat} (hd : Other a d) (item : FatDirectoryItem) :
    (¬ CountEnds K₀.disk (K₀.priv.itemSector item) ∧ fat16LoadFatDirectory.read K d item = none) ∨
    (CountEnds K₀.disk (K₀.priv.itemSector item) ∧
      ∃ K', fat16LoadFatDirectory.read K d item = some (d, K') ∧ Steps a K₀ K K') := by
  unfold fat16LoadFatDirectory.read
  dsimp only
  rw [← h.disk, ← itemSector_congr h.volume]
  unfold FatPrivate.itemSector
  rcases totalItems_cases K (Word.ofInt (fat16ClusterToSector K.priv.toFatPrivate
    (Word.toInt (fat16GetFirstCluster item)))) with ⟨hno, he⟩ | ⟨hyes, total, stream, he⟩
  · rw [he]
    exact .inl ⟨hno, rfl⟩
  · rw [he]
    refine .inr ⟨hyes, ?_⟩
    dsimp only
    have hcount : Keeps a K₀ { K with priv := { K.priv with directoryStream := stream } } :=
      ⟨h.kernel, h.held, h.items, h.disk, h.volume⟩
    obtain ⟨p, K₁, hz, hK₁, -, hp⟩ := hcount.kzalloc (Word.ofInt_lt (total * sizeofFatDirectoryItem))
    rw [hz]
    dsimp only
    obtain ⟨K₂, hK₂⟩ : ∃ K₂, K₁.setFatDirectory d
        { K₁.fatDirectoryAt d with item := p, total := total } = K₂ := ⟨_, rfl⟩
    have hk₂ : Keeps a K₀ K₂ := by
      subst hK₂
      exact ⟨hK₁.kernel, hK₁.held, hK₁.items, hK₁.disk, hK₁.volume⟩
    have hdenied₂ : K₂.kmem.denied = K₁.kmem.denied := by
      subst hK₂
      rfl
    have hitem₂ : (K₂.fatDirectoryAt d).item = p := by
      subst hK₂
      unfold Fs.setFatDirectory
      dsimp only
      rw [Function.update_self]
    rw [hK₂]
    rcases hp with ⟨rfl, hdenied⟩ | ⟨hother, hdenied⟩
    · -- no memory for the entries
      rw [if_pos rfl]
      exact ⟨_, rfl, hk₂.freeDirectory hd (.inl hitem₂), fun hf => by
        rw [freeDirectory_denied, hdenied₂, hdenied] at hf
        cases hf⟩
    · rw [if_neg hother.ne_zero]
      have hmt₂ : Mounted K₂.disk K₂.priv.toFatPrivate := by
        rw [hk₂.disk]
        have hstream := hk₂.volume.stream
        obtain ⟨s, hs⟩ := hmt.stream
        rw [hs] at hstream
        exact ⟨hmt.sectorSize, hk₂.volume.sectorsPerCluster ▸ hmt.sectors_pos,
          Option.isSome_iff_exists.1 hstream⟩
      obtain ⟨⟨res, priv, m⟩, hr⟩ := readInternal_some hmt₂
        (Word.toInt (fat16GetFirstCluster item)) 0
        (Word.toInt (Word.ofInt (total * sizeofFatDirectoryItem))) p K₂.mem
      have hv := readInternal_sameVolume hr
      rw [hr]
      dsimp only
      obtain ⟨K₃, hK₃⟩ : ∃ K₃, ({ K₂.setMem m with
          priv := { K₂.priv with toFatPrivate := priv } } : Fs).setDirectoryItems p
            (directoryItems m p) = K₃ := ⟨_, rfl⟩
      have hne : a ≠ p := by
        obtain ⟨b, -, -, hne⟩ := hother
        exact hne.symm
      have hk₃ : Keeps a K₀ K₃ := by
        subst hK₃
        exact ⟨hk₂.kernel, hk₂.held, (Function.update_of_ne hne _ _).trans hk₂.items, hk₂.disk,
          hk₂.volume.trans hv⟩
      have hdenied₃ : K₃.kmem.denied = K.kmem.denied := by
        subst hK₃
        exact hdenied₂.trans hdenied
      have hitem₃ : (K₃.fatDirectoryAt d).item = p := by
        subst hK₃
        exact hitem₂
      rw [hK₃]
      refine ⟨_, rfl, ?_⟩
      split
      · exact ⟨hk₃.freeDirectory hd (.inr (hitem₃.symm ▸ hother)), fun hf => by
          rwa [freeDirectory_denied, hdenied₃] at hf⟩
      · exact ⟨hk₃, fun hf => hdenied₃ ▸ hf⟩

/-- A subdirectory is loaded, or its count does not end. -/
theorem loadFatDirectory_cases (h : Keeps a K₀ K) (hmt : Mounted K₀.disk K₀.priv.toFatPrivate)
    (item : FatDirectoryItem) :
    (¬ CountEnds K₀.disk (K₀.priv.itemSector item) ∧ fat16LoadFatDirectory K item = none) ∨
    ∃ d K', fat16LoadFatDirectory K item = some (d, K') ∧ Steps a K₀ K K' ∧
      (K'.kmem.denied = false → item.Subdirectory →
        CountEnds K₀.disk (K₀.priv.itemSector item)) := by
  unfold fat16LoadFatDirectory
  by_cases hsub : item.itemAttribute &&& fatFileSubdirectory = 0
  · rw [if_pos hsub]
    exact .inr ⟨0, K, rfl, ⟨h, id⟩, fun _ hs => absurd hsub hs⟩
  · rw [if_neg hsub]
    obtain ⟨d, K₁, hz, hK₁, -, hd⟩ := h.kzalloc (show sizeofFatDirectory < 2 ^ 32 by decide)
    rw [hz]
    dsimp only
    rcases hd with ⟨rfl, hdenied⟩ | ⟨hother, hdenied⟩
    · rw [if_pos rfl]
      have hno : K₁.kmem.denied ≠ false := by
        rw [hdenied]
        decide
      exact .inr ⟨0, K₁, rfl, ⟨hK₁, fun hf => absurd hf hno⟩, fun hf => absurd hf hno⟩
    · rw [if_neg hother.ne_zero]
      have hset : Keeps a K₀ (K₁.setFatDirectory d {}) :=
        ⟨hK₁.kernel, hK₁.held, hK₁.items, hK₁.disk, hK₁.volume⟩
      rcases loadFatDirectory_read_cases hset hmt hother item with ⟨hno, he⟩ | ⟨hyes, K', he, hst⟩
      · exact .inl ⟨hno, he⟩
      · exact .inr ⟨d, K', he, ⟨hst.keeps, fun hf => hdenied ▸ hst.denied hf⟩, fun _ _ => hyes⟩

end

/-! ## Building an item -/

section

variable {a i p : Nat} {K₀ K K' : Fs}

/-- The entry's own count ends, where it is a subdirectory. -/
def FatDirectoryItem.Loadable (K : Fs) (item : FatDirectoryItem) : Prop :=
  item.Subdirectory → CountEnds K.disk (K.priv.itemSector item)

/-- What building an item from entry `i` of the array at `a` leaves behind. -/
structure Builds (a i : Nat) (K₀ K : Fs) (p : Nat) (K' : Fs) : Prop extends Steps a K₀ K K' where
  loadable : K'.kmem.denied = false → (K₀.directoryItemsAt a i).Loadable K₀
  ne_zero : K'.kmem.denied = false → p ≠ 0

theorem Keeps.cloneDirectoryItem (h : Keeps a K₀ K) (item : FatDirectoryItem) :
    ∃ c K', fat16CloneDirectoryItem K item = (c, K') ∧ Steps a K₀ K K' := by
  unfold fat16CloneDirectoryItem
  obtain ⟨c, K₁, hz, hK₁, -, hc⟩ := h.kzalloc (show sizeofFatDirectoryItem < 2 ^ 32 by decide)
  rw [hz]
  dsimp only
  rcases hc with ⟨rfl, hdenied⟩ | ⟨hother, hdenied⟩
  · rw [if_pos rfl]
    exact ⟨0, K₁, rfl, hK₁, fun hf => by rw [hdenied] at hf; cases hf⟩
  · rw [if_neg hother.ne_zero]
    have hne : a ≠ c := by
      obtain ⟨b, -, -, hne⟩ := hother
      exact hne.symm
    exact ⟨c, K₁.setDirectoryItems c fun _ => item, rfl,
      ⟨hK₁.kernel, hK₁.held, (Function.update_of_ne hne _ _).trans hK₁.items, hK₁.disk,
        hK₁.volume⟩, fun hf => hdenied ▸ hf⟩

/-- The item is filled in. -/
theorem Steps.setFatItem {K₁ K₂ : Fs} (h : Steps a K₀ K₁ K₂) (f : Nat) (v : FatItem)
    (hK : K₁.kmem.denied = K.kmem.denied) : Steps a K₀ K (K₂.setFatItem f v) where
  keeps := ⟨h.keeps.kernel, h.keeps.held, h.keeps.items, h.keeps.disk, h.keeps.volume⟩
  denied := fun hd => hK ▸ h.denied hd

theorem newFatItem_cases (h : Keeps a K₀ K) (hmt : Mounted K₀.disk K₀.priv.toFatPrivate) (i : Nat) :
    (¬ (K₀.directoryItemsAt a i).Loadable K₀ ∧ fat16NewFatItemForDirectoryItem K a i = none) ∨
    ∃ p K', fat16NewFatItemForDirectoryItem K a i = some (p, K') ∧ Builds a i K₀ K p K' := by
  obtain ⟨item, hitem⟩ : ∃ item, K₀.directoryItemsAt a i = item := ⟨_, rfl⟩
  unfold fat16NewFatItemForDirectoryItem
  dsimp only
  rw [h.items, hitem]
  obtain ⟨f, K₁, hz, hK₁, -, hf⟩ := h.kzalloc (show sizeofFatItem < 2 ^ 32 by decide)
  rw [hz]
  dsimp only
  rcases hf with ⟨rfl, hdenied⟩ | ⟨hother, hdenied⟩
  · rw [if_pos rfl]
    have hno : K₁.kmem.denied ≠ false := by
      rw [hdenied]
      decide
    exact .inr ⟨0, K₁, rfl, ⟨hK₁, fun hf => absurd hf hno⟩, fun hf => absurd hf hno,
      fun hf => absurd hf hno⟩
  · rw [if_neg hother.ne_zero]
    by_cases hsub : item.itemAttribute &&& fatFileSubdirectory ≠ 0
    · rw [if_pos hsub]
      rcases loadFatDirectory_cases hK₁ hmt item with ⟨hno, he⟩ | ⟨d, K₂, he, hst, hends⟩
      · rw [he]
        exact .inl ⟨fun hl => hno (hl hsub), rfl⟩
      · rw [he]
        refine .inr ⟨f, K₂.setFatItem f ⟨d, .directory, (a, i)⟩, rfl, ?_⟩
        exact
          { toSteps := hst.setFatItem f _ hdenied
            loadable := by
              rw [hitem]
              exact hends
            ne_zero := fun _ => hother.ne_zero }
    · rw [if_neg hsub]
      obtain ⟨c, K₂, hc, hst⟩ := hK₁.cloneDirectoryItem item
      rw [hc]
      refine .inr ⟨f, K₂.setFatItem f ⟨c, .file, (a, i)⟩, rfl, ?_⟩
      exact
        { toSteps := hst.setFatItem f _ hdenied
          loadable := by
            rw [hitem]
            exact fun _ hs => absurd hs hsub
          ne_zero := fun _ => hother.ne_zero }

end

/-! ## The search -/

/-- Entry `i` of the array at `a` has the name. -/
def Fs.Hit (K : Fs) (a : Nat) (name : Nat → UInt8) (i : Nat) : Prop :=
  istrncmp (cstring (fat16GetFullRelativeFilename (K.directoryItemsAt a i))) name maxPath = 0

/-- The item at `p` was built from entry `i` of the array at `a`, and nothing happened since. -/
def BuiltFrom (a i p : Nat) (K' : Fs) (item : FatDirectoryItem) : Prop :=
  ∃ K : Fs, K.directoryItemsAt a i = item ∧ fat16NewFatItemForDirectoryItem K a i = some (p, K')

theorem setFatItem_source (K : Fs) (f : Nat) (v : FatItem) :
    ((K.setFatItem f v).fatItemAt f).source = v.source := by
  unfold Fs.setFatItem
  dsimp only
  rw [Function.update_self]

/-- An item remembers its entry. -/
theorem BuiltFrom.source {a i p : Nat} {K' : Fs} {item : FatDirectoryItem}
    (h : BuiltFrom a i p K' item) (hp : p ≠ 0) : (K'.fatItemAt p).source = (a, i) := by
  obtain ⟨K, -, he⟩ := h
  unfold fat16NewFatItemForDirectoryItem at he
  dsimp only at he
  by_cases hz : (K.kzalloc sizeofFatItem).1 = 0
  · rw [if_pos hz] at he
    cases he
    exact absurd rfl hp
  · rw [if_neg hz] at he
    split at he
    · split at he
      · cases he
      · cases he
        exact setFatItem_source _ _ _
    · cases he
      exact setFatItem_source _ _ _

/-- How a search of the entries `i, …, i + n - 1` ends, where no allocation was denied. It began in
`K` with the item `f`. -/
inductive Found (a : Nat) (name : Nat → UInt8) (K₀ : Fs) (i n f : Nat) (K : Fs) : Nat → Fs → Prop
  | last (j p : Nat) (K' : Fs) (hlo : i ≤ j) (hhi : j < i + n) (hit : K₀.Hit a name j)
      (hlast : ∀ j', j < j' → j' < i + n → ¬ K₀.Hit a name j') (hp : p ≠ 0)
      (built : BuiltFrom a j p K' (K₀.directoryItemsAt a j)) : Found a name K₀ i n f K p K'
  | none (hno : ∀ j, i ≤ j → j < i + n → ¬ K₀.Hit a name j) : Found a name K₀ i n f K f K

section

variable {a p : Nat} {K₀ K' : Fs} {name : Nat → UInt8}

theorem findItem_loop_spec (hmt : Mounted K₀.disk K₀.priv.toFatPrivate) :
    ∀ (n i f : Nat) (K : Fs), (1 ≤ n → Keeps a K₀ K) →
      fat16FindItemInDirectory.loop a name n i f K = some (p, K') → K'.kmem.denied = false →
      K.kmem.denied = false ∧ Found a name K₀ i n f K p K' ∧
        ∀ j, i ≤ j → j < i + n → K₀.Hit a name j → (K₀.directoryItemsAt a j).Loadable K₀
  | 0, i, f, K, _, he, hd => by
    cases he
    exact ⟨hd, .none fun j hj hj' => absurd hj' (by omega), fun j hj hj' => absurd hj' (by omega)⟩
  | n + 1, i, f, K, hk, he, hd => by
    have h := hk (Nat.succ_pos n)
    unfold fat16FindItemInDirectory.loop at he
    dsimp only at he
    rw [h.items] at he
    by_cases hit : istrncmp (cstring (fat16GetFullRelativeFilename (K₀.directoryItemsAt a i))) name
        maxPath = 0
    · rw [if_pos hit] at he
      rcases newFatItem_cases h hmt i with ⟨-, hnew⟩ | ⟨q, K₁, hnew, hb⟩
      · rw [hnew] at he
        cases he
      · rw [hnew] at he
        dsimp only at he
        obtain ⟨hd₁, hfound, hload⟩ := findItem_loop_spec hmt n (i + 1) q K₁ (fun _ => hb.keeps) he hd
        refine ⟨hb.denied hd₁, ?_, fun j hj hj' hh => ?_⟩
        · cases hfound with
          | last j _ _ hlo hhi hit' hlast hp built =>
            exact .last j p K' (by omega) (by omega) hit'
              (fun j' hj hj' => hlast j' hj (by omega)) hp built
          | none hno =>
            have hp := hb.ne_zero hd₁
            exact .last i p K' (Nat.le_refl i) (by omega) hit
              (fun j' hj hj' => hno j' hj (by omega)) hp ⟨K, by rw [h.items], hnew⟩
        · rcases Nat.eq_or_lt_of_le hj with rfl | hlt
          · exact hb.loadable hd₁
          · exact hload j hlt (by omega) hh
    · rw [if_neg hit] at he
      obtain ⟨hd₁, hfound, hload⟩ := findItem_loop_spec hmt n (i + 1) f K (fun _ => h) he hd
      refine ⟨hd₁, ?_, fun j hj hj' hh => ?_⟩
      · cases hfound with
        | last j _ _ hlo hhi hit' hlast hp built =>
          exact .last j p K' (by omega) (by omega) hit'
            (fun j' hj hj' => hlast j' hj (by omega)) hp built
        | none hno =>
          refine .none fun j hj hj' hh => ?_
          rcases Nat.eq_or_lt_of_le hj with rfl | hlt
          · exact hit hh
          · exact hno j hlt (by omega) hh
      · rcases Nat.eq_or_lt_of_le hj with rfl | hlt
        · exact absurd hh hit
        · exact hload j hlt (by omega) hh

/-- A search ends where the subdirectories of that name can be loaded. -/
theorem findItem_loop_some (hmt : Mounted K₀.disk K₀.priv.toFatPrivate) :
    ∀ (n i f : Nat) (K : Fs), (1 ≤ n → Keeps a K₀ K) →
      (∀ j, i ≤ j → j < i + n → K₀.Hit a name j → (K₀.directoryItemsAt a j).Loadable K₀) →
      ∃ p K', fat16FindItemInDirectory.loop a name n i f K = some (p, K')
  | 0, i, f, K, _, _ => ⟨f, K, rfl⟩
  | n + 1, i, f, K, hk, hload => by
    have h := hk (Nat.succ_pos n)
    unfold fat16FindItemInDirectory.loop
    dsimp only
    rw [h.items]
    by_cases hit : istrncmp (cstring (fat16GetFullRelativeFilename (K₀.directoryItemsAt a i))) name
        maxPath = 0
    · rw [if_pos hit]
      rcases newFatItem_cases h hmt i with ⟨hno, -⟩ | ⟨q, K₁, hnew, hb⟩
      · exact absurd (hload i (Nat.le_refl i) (by omega) hit) hno
      · rw [hnew]
        exact findItem_loop_some hmt n (i + 1) q K₁ (fun _ => hb.keeps)
          fun j hj hj' hh => hload j (by omega) (by omega) hh
    · rw [if_neg hit]
      exact findItem_loop_some hmt n (i + 1) f K (fun _ => h)
        fun j hj hj' hh => hload j (by omega) (by omega) hh

end

/-! ## When lookups are right -/

/-- The lookups in the directory find the entries in use before entry `T`, and only these. -/
def LookupsRight (K : Fs) (directory : FatDirectory) (entry : Nat → FatDirectoryItem) (T : Nat) :
    Prop :=
  ∀ name : List UInt8, (0 : UInt8) ∉ name →
    ∃ p K', fat16FindItemInDirectory K directory (cstring name) = some (p, K') ∧
      (p ≠ 0 ↔ ∃ i < T, (entry i).Live ∧ (entry i).Named name) ∧
      (p ≠ 0 → ∃ i < T, (entry i).Live ∧ (entry i).Named name ∧
        BuiltFrom directory.item i p K' (entry i))

/-- The first `n` of the entries before `T` are in use, can be loaded, and have the names of all
entries in use. -/
structure Complete (n : Nat) (entry : Nat → FatDirectoryItem) (T : Nat)
    (Loadable : FatDirectoryItem → Prop) : Prop where
  le : n ≤ T
  live : ∀ i < n, (entry i).Live
  loads : ∀ i < n, Loadable (entry i)
  all : ∀ j < T, (entry j).Live → ∃ i < n, (entry i).Named (fat16GetFullRelativeFilename (entry j))

/-- No lookup in the directory is denied an allocation. -/
def NeverDenied (K : Fs) (directory : FatDirectory) : Prop :=
  ∀ (name : List UInt8) (p : Nat) (K' : Fs),
    fat16FindItemInDirectory K directory (cstring name) = some (p, K') → K'.kmem.denied = false

section

variable {K : Fs} {directory : FatDirectory} {entry : Nat → FatDirectoryItem} {n T : Nat}

theorem FatDirectoryItem.Named.trans {item item' : FatDirectoryItem} {name : List UInt8}
    (h : item.Named (fat16GetFullRelativeFilename item')) (h' : item'.Named name) :
    item.Named name := Eq.trans (b := (fat16GetFullRelativeFilename item').map tolower) h h'

/-- A directory whose array stays, with the entries counted. -/
structure LoadedArray (K : Fs) (directory : FatDirectory) (n : Nat) : Prop where
  mounted : Mounted K.disk K.priv.toFatPrivate
  total : directory.total = n
  keeps : 1 ≤ n → Keeps directory.item K K
  sized : ∀ i, (K.directoryItemsAt directory.item i).Sized

theorem LoadedArray.find (h : LoadedArray K directory n) (hd : NeverDenied K directory)
    {name : List UInt8} {p : Nat} {K' : Fs} (hname : (0 : UInt8) ∉ name)
    (he : fat16FindItemInDirectory K directory (cstring name) = some (p, K')) :
    (∀ i < n, (K.directoryItemsAt directory.item i).Named name →
      (K.directoryItemsAt directory.item i).Loadable K) ∧
    ((p = 0 ∧ ∀ i < n, ¬ (K.directoryItemsAt directory.item i).Named name) ∨
      ∃ i < n, (K.directoryItemsAt directory.item i).Named name ∧
        (∀ j, i < j → j < n → ¬ (K.directoryItemsAt directory.item j).Named name) ∧ p ≠ 0 ∧
        BuiltFrom directory.item i p K' (K.directoryItemsAt directory.item i)) := by
  have hhit : ∀ i, K.Hit directory.item (cstring name) i ↔
      (K.directoryItemsAt directory.item i).Named name := fun i => named_iff (h.sized i) hname
  have hden := hd name p K' he
  unfold fat16FindItemInDirectory at he
  rw [h.total, Int.toNat_natCast] at he
  obtain ⟨-, hfound, hload⟩ := findItem_loop_spec h.mounted n 0 0 K h.keeps he hden
  refine ⟨fun i hi hn => hload i (Nat.zero_le i) (by omega) ((hhit i).2 hn), ?_⟩
  cases hfound with
  | last j _ _ hlo hhi hit hlast hp built =>
    rw [Nat.zero_add] at hhi
    refine .inr ⟨j, hhi, (hhit j).1 hit, fun i hi hin hn => ?_, hp, built⟩
    exact hlast i hi (by omega) ((hhit i).2 hn)
  | none hno => exact .inl ⟨rfl, fun i hi hn => hno i (Nat.zero_le i) (by omega) ((hhit i).2 hn)⟩

theorem LoadedArray.find_some (h : LoadedArray K directory n) {name : List UInt8}
    (hname : (0 : UInt8) ∉ name)
    (hload : ∀ i < n, (K.directoryItemsAt directory.item i).Named name →
      (K.directoryItemsAt directory.item i).Loadable K) :
    ∃ p K', fat16FindItemInDirectory K directory (cstring name) = some (p, K') := by
  unfold fat16FindItemInDirectory
  rw [h.total, Int.toNat_natCast]
  exact findItem_loop_some h.mounted n 0 0 K h.keeps fun j _ hj hit =>
    hload j (by omega) ((named_iff (h.sized j) hname).1 hit)

/-- The search among the entries counted is right where these are complete, and only there. -/
theorem LoadedArray.lookupsRight_iff (h : LoadedArray K directory n) (hd : NeverDenied K directory)
    (hitems : n ≤ T → ∀ i < n, K.directoryItemsAt directory.item i = entry i) :
    LookupsRight K directory entry T ↔ Complete n entry T (·.Loadable K) := by
  constructor
  · intro hright
    -- the name of an entry that was counted
    have hcounted : ∀ i < n, ∃ j < n, i ≤ j ∧ j < T ∧ (entry j).Live ∧
        (entry j).Named (fat16GetFullRelativeFilename (K.directoryItemsAt directory.item i)) ∧
        (K.directoryItemsAt directory.item i).Loadable K := fun i hi => by
      have hzero := zero_notMem_fullName (K.directoryItemsAt directory.item i)
      obtain ⟨p, K', he, -, hbuilt⟩ := hright _ hzero
      obtain ⟨hload, hno | ⟨j, hj, -, hlast, hp, hb⟩⟩ := h.find hd hzero he
      · exact absurd rfl (hno.2 i hi)
      · obtain ⟨j', hj', hlive, hnamed, hb'⟩ := hbuilt hp
        have hsource := (hb.source hp).symm.trans (hb'.source hp)
        obtain rfl : j = j' := (Prod.mk.inj hsource).2
        refine ⟨j, hj, Nat.le_of_not_lt fun hlt => ?_, hj', hlive, hnamed, hload i hi rfl⟩
        exact hlast i hlt hi rfl
    have hle : n ≤ T := by
      rcases Nat.eq_zero_or_pos n with rfl | hpos
      · exact Nat.zero_le T
      · obtain ⟨j, hj, hij, hjT, -⟩ := hcounted (n - 1) (by omega)
        omega
    have hentry := hitems hle
    refine ⟨hle, fun i hi => ?_, fun i hi => ?_, fun j hj hlive => ?_⟩
    · obtain ⟨j, -, -, -, hlive, hnamed, -⟩ := hcounted i hi
      rw [hentry i hi] at hnamed
      exact fun hdead => hlive (hnamed.mark_iff.2 hdead)
    · obtain ⟨-, -, -, -, -, -, hload⟩ := hcounted i hi
      rwa [hentry i hi] at hload
    · have hzero := zero_notMem_fullName (entry j)
      obtain ⟨p, K', he, hiff, -⟩ := hright _ hzero
      have hp := hiff.2 ⟨j, hj, hlive, rfl⟩
      obtain ⟨-, hno | ⟨i, hi, hnamed, -⟩⟩ := h.find hd hzero he
      · exact absurd hno.1 hp
      · rw [hentry i hi] at hnamed
        exact ⟨i, hi, hnamed⟩
  · intro hc name hname
    have hentry := hitems hc.le
    obtain ⟨p, K', he⟩ := h.find_some hname fun i hi _ => by
      rw [hentry i hi]
      exact hc.loads i hi
    refine ⟨p, K', he, ?_⟩
    obtain ⟨-, ⟨rfl, hno⟩ | ⟨i, hi, hnamed, -, hp, hb⟩⟩ := h.find hd hname he
    · refine ⟨iff_of_false (not_not_intro rfl) ?_, fun h0 => absurd rfl h0⟩
      rintro ⟨j, hj, hlive, hnamed⟩
      obtain ⟨i, hi, hsame⟩ := hc.all j hj hlive
      refine hno i hi ?_
      rw [hentry i hi]
      exact hsame.trans hnamed
    · rw [hentry i hi] at hnamed hb
      have hT : i < T := lt_of_lt_of_le hi hc.le
      exact ⟨iff_of_true hp ⟨i, hT, hc.live i hi, hnamed⟩,
        fun _ => ⟨i, hT, hc.live i hi, hnamed, hb⟩⟩

end

end Pandora
