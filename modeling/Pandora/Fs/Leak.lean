import Pandora.Fs.File
import Pandora.Heap.Held

/-!
# The root of a parsed path is never given back

A successful `fopen` does not free the path it parsed. Block `b` below is that of the path's root: it
is held from its allocation on, and every pointer that is freed later is clear of it (`Clear`),
because it was either just allocated or read from a structure that was filled in with such pointers
(`ClearItem`). `Steps b` is what every operation keeps; a followed null pointer would read structures
that nobody filled in, so the operations are tracked as long as the ghost `fault` is not set.
-/

namespace Pandora

open ByteMem

/-! ## Clear pointers -/

/-- Freeing `p` does not begin with block `b`. -/
def Clear (b p : Nat) : Prop := freedBlock p ≠ b

/-- The array of the directory is clear of `b`. -/
def ClearDirectory (b : Nat) (K : Fs) (d : Nat) : Prop := Clear b (K.fatDirectoryAt d).item

/-- Freeing the item is clear of `b`. -/
structure ClearItem (b : Nat) (K : Fs) (p : Nat) : Prop where
  self : Clear b p
  item : Clear b (K.fatItemAt p).item
  directory : (K.fatItemAt p).type = .directory →
    (K.fatItemAt p).item = 0 ∨ ClearDirectory b K (K.fatItemAt p).item

namespace Leak

/-! ## The ghost -/

/-- The ghost stays set. -/
def Faults (K K' : Fs) : Prop := K.kmem.fault = true → K'.kmem.fault = true

section

variable {K K' K'' : Fs}

theorem Faults.trans (h : Faults K K') (h' : Faults K' K'') : Faults K K'' := fun hf => h' (h hf)

theorem Faults.of_eq (h : K'.kmem.fault = K.kmem.fault) : Faults K K' := fun hf => h ▸ hf

/-- The ghosts stay set. -/
structure Marks (k k' : Kmem) : Prop where
  fault : k.fault = true → k'.fault = true
  denied : k.denied = true → k'.denied = true

theorem Marks.refl (k : Kmem) : Marks k k := ⟨id, id⟩

theorem Marks.trans {k k' k'' : Kmem} (h : Marks k k') (h' : Marks k' k'') : Marks k k'' :=
  ⟨h'.fault ∘ h.fault, h'.denied ∘ h.denied⟩

theorem marks_kzalloc (K : Fs) (size : Nat) : Marks K.kmem (K.kzalloc size).2.kmem := by
  unfold Fs.kzalloc Pandora.kzalloc kmalloc
  dsimp only
  split
  · exact ⟨id, fun hd => by rw [hd, Bool.true_or]⟩
  · exact ⟨id, fun hd => by rw [hd, Bool.true_or]⟩

theorem marks_follow (K : Fs) (p : Nat) : Marks K.kmem (K.follow p).kmem :=
  ⟨fun hf => follow_fault hf p, fun hd => (follow_denied K.kmem p).trans hd⟩

theorem marks_kfree (K : Fs) (p : Nat) : Marks K.kmem (K.kfree p).kmem :=
  ⟨fun hf => follow_fault hf p, fun hd => (kfree_denied K.kmem p).trans hd⟩

theorem marks_freeDirectory (K : Fs) (d : Nat) : Marks K.kmem (fat16FreeDirectory K d).kmem := by
  unfold fat16FreeDirectory
  split
  · exact .refl K.kmem
  · dsimp only
    split
    · exact ((marks_follow K d).trans (marks_kfree _ _)).trans (marks_kfree _ _)
    · exact (marks_follow K d).trans (marks_kfree _ _)

theorem Marks.freeDirectory {k : Kmem} (K : Fs) (d : Nat) (h : Marks k K.kmem) :
    Marks k (fat16FreeDirectory K d).kmem := h.trans (marks_freeDirectory K d)

theorem marks_fatItemFree (K : Fs) (p : Nat) : Marks K.kmem (fat16FatItemFree K p).kmem := by
  unfold fat16FatItemFree
  dsimp only
  split
  · exact ((marks_follow K p).trans (marks_freeDirectory _ _)).trans (marks_kfree _ _)
  · exact ((marks_follow K p).trans (marks_kfree _ _)).trans (marks_kfree _ _)

theorem marks_totalItems {sector : Nat} {r : Int × Fs}
    (he : fat16GetTotalItemsForDirectory K sector = some r) : Marks K.kmem r.2.kmem := by
  unfold fat16GetTotalItemsForDirectory at he
  dsimp only [diskstreamerSeek] at he
  rw [if_neg (show ¬ (0 : Int) ≠ allOk by decide)] at he
  split at he
  · cases he
  · cases he
    exact .refl K.kmem

theorem marks_loadFatDirectory {item : FatDirectoryItem} {r : Nat × Fs}
    (he : fat16LoadFatDirectory K item = some r) : Marks K.kmem r.2.kmem := by
  unfold fat16LoadFatDirectory at he
  dsimp only at he
  have h₁ := marks_kzalloc K sizeofFatDirectory
  split at he
  · cases he
    exact .refl K.kmem
  · split at he
    · cases he
      exact h₁
    · unfold fat16LoadFatDirectory.read at he
      dsimp only at he
      split at he
      · cases he
      · rename_i total K₁ hcount
        have h₂ : Marks K.kmem K₁.kmem := h₁.trans (marks_totalItems hcount)
        have h₃ := h₂.trans (marks_kzalloc K₁ (Word.ofInt (total * sizeofFatDirectoryItem)))
        split at he
        · cases he
          exact Marks.freeDirectory _ _ h₃
        · split at he
          · cases he
          · cases he
            dsimp only
            -- the memory that was read into has no ghosts
            split
            · exact Marks.freeDirectory _ _ ⟨h₃.fault, h₃.denied⟩
            · exact ⟨h₃.fault, h₃.denied⟩

theorem marks_newFatItem {array i : Nat} {r : Nat × Fs}
    (he : fat16NewFatItemForDirectoryItem K array i = some r) : Marks K.kmem r.2.kmem := by
  unfold fat16NewFatItemForDirectoryItem fat16CloneDirectoryItem at he
  dsimp only at he
  have h₁ := marks_kzalloc K sizeofFatItem
  split at he
  · cases he
    exact h₁
  · split at he
    · split at he
      · cases he
      · rename_i d K₂ hload
        cases he
        have h₂ := marks_loadFatDirectory hload
        exact h₁.trans h₂
    · have h₂ := h₁.trans (marks_kzalloc (K.kzalloc sizeofFatItem).2 sizeofFatDirectoryItem)
      cases he
      dsimp only
      split
      · exact h₂
      · exact h₂

theorem marks_findItem_loop {array : Nat} {name : Nat → UInt8} {r : Nat × Fs} :
    ∀ (n i f : Nat) (K : Fs), fat16FindItemInDirectory.loop array name n i f K = some r →
      Marks K.kmem r.2.kmem
  | 0, _, _, _, he => by
    cases he
    exact .refl _
  | n + 1, i, f, K, he => by
    unfold fat16FindItemInDirectory.loop at he
    dsimp only at he
    split at he
    · split at he
      · cases he
      · rename_i q K₁ hnew
        exact (marks_newFatItem hnew).trans (marks_findItem_loop n (i + 1) q K₁ he)
    · exact marks_findItem_loop n (i + 1) f K he

theorem faults_kzalloc (K : Fs) (size : Nat) : Faults K (K.kzalloc size).2 :=
  (marks_kzalloc K size).fault

theorem faults_follow (K : Fs) (p : Nat) : Faults K (K.follow p) := (marks_follow K p).fault

theorem faults_fatItemFree (K : Fs) (p : Nat) : Faults K (fat16FatItemFree K p) :=
  (marks_fatItemFree K p).fault

theorem faults_findItem_loop {array : Nat} {name : Nat → UInt8} {r : Nat × Fs} (n i f : Nat) (K : Fs)
    (he : fat16FindItemInDirectory.loop array name n i f K = some r) : Faults K r.2 :=
  (marks_findItem_loop n i f K he).fault

theorem faults_directoryEntry_loop {r : Nat × Fs} :
    ∀ (n : Nat) (K : Fs) (currentItem nextPart : Nat),
      fat16GetDirectoryEntry.loop n K currentItem nextPart = some r → Faults K r.2
  | 0, K, currentItem, nextPart, he => by
    unfold fat16GetDirectoryEntry.loop at he
    split at he
    · cases he
      exact id
    · cases he
  | n + 1, K, currentItem, nextPart, he => by
    unfold fat16GetDirectoryEntry.loop at he
    dsimp only at he
    have h₁ := faults_follow K currentItem
    split at he
    · cases he
      exact id
    · split at he
      · cases he
        exact h₁
      · have h₂ := (h₁.trans (faults_follow _ nextPart)).trans (faults_follow
          ((K.follow currentItem).follow nextPart)
          (((K.follow currentItem).follow nextPart).fatItemAt currentItem).item)
        split at he
        · cases he
        · rename_i tmpItem K₄ hfind
          have h₃ := h₂.trans (faults_findItem_loop _ _ _ _ hfind)
          exact (h₃.trans (faults_fatItemFree K₄ currentItem)).trans
            (faults_directoryEntry_loop n _ _ _ he)

theorem faults_newDescriptor_loop : ∀ (n i : Nat) (K : Fs),
    Faults K (fileNewDescriptor.loop n i K).2.2
  | 0, _, _ => id
  | n + 1, i, K => by
    unfold fileNewDescriptor.loop
    dsimp only
    split
    · exact (faults_kzalloc K sizeofFileDescriptor).trans (faults_follow _ _)
    · exact faults_newDescriptor_loop n (i + 1) K

end

/-! ## What stays -/

/-- What every operation keeps (module doc). -/
structure Steps (b : Nat) (K K' : Fs) : Prop where
  kernel : K'.kmem.heap.Kernel
  held : Held K'.entries b
  directories : ∀ d, ClearDirectory b K d → ClearDirectory b K' d
  items : ∀ p, ClearItem b K p → ClearItem b K' p

/-- Nothing happened yet. -/
abbrev Rooted (b : Nat) (K : Fs) : Prop := Steps b K K

section

variable {b p size : Nat} {K K' K'' : Fs}

theorem rooted (hk : K.kmem.heap.Kernel) (hb : Held K.entries b) : Rooted b K :=
  ⟨hk, hb, fun _ h => h, fun _ h => h⟩

theorem Steps.here (h : Steps b K K') : Rooted b K' := rooted h.kernel h.held

theorem Steps.trans (h : Steps b K K') (h' : Steps b K' K'') : Steps b K K'' where
  kernel := h'.kernel
  held := h'.held
  directories := fun d hd => h'.directories d (h.directories d hd)
  items := fun p hp => h'.items p (h.items p hp)

/-- The heap and the two stores are what matters. -/
theorem Steps.of_eq (h : Rooted b K) (hheap : K'.kmem.heap = K.kmem.heap)
    (hitems : K'.fatItemAt = K.fatItemAt)
    (hdirs : K'.fatDirectoryAt = K.fatDirectoryAt) : Steps b K K' where
  kernel := hheap ▸ h.kernel
  held := by
    have hentries : K'.entries = K.entries := congrArg (fun h => h.table.entries) hheap
    rw [hentries]
    exact h.held
  directories := fun d hd => by
    unfold ClearDirectory
    rwa [hdirs]
  items := fun p hp => ⟨hp.self, by rw [hitems]; exact hp.item, by
    unfold ClearDirectory
    rw [hitems, hdirs]
    exact hp.directory⟩

/-! Contents do not matter. -/

theorem Steps.setMem (h : Steps b K K') (m : Mem) : Steps b K (K'.setMem m) :=
  h.trans (.of_eq h.here rfl rfl rfl)

theorem Steps.setPathRoot (h : Steps b K K') (a : Nat) (v : PathRoot) :
    Steps b K (K'.setPathRoot a v) := h.trans (.of_eq h.here rfl rfl rfl)

theorem Steps.setPathPart (h : Steps b K K') (a : Nat) (v : PathPart) :
    Steps b K (K'.setPathPart a v) := h.trans (.of_eq h.here rfl rfl rfl)

theorem Steps.setFatDescriptor (h : Steps b K K') (a : Nat) (v : FatDescriptor) :
    Steps b K (K'.setFatDescriptor a v) := h.trans (.of_eq h.here rfl rfl rfl)

theorem Steps.setFileDescriptor (h : Steps b K K') (a : Nat) (v : FileDescriptor) :
    Steps b K (K'.setFileDescriptor a v) := h.trans (.of_eq h.here rfl rfl rfl)

theorem Steps.setFileDescriptors (h : Steps b K K') (i v : Nat) :
    Steps b K (K'.setFileDescriptors i v) := h.trans (.of_eq h.here rfl rfl rfl)

theorem clear_zero (h : b < 25600) : Clear b 0 := fun he => by
  have := freedBlock_zero
  omega

theorem Steps.kzalloc (h : Rooted b K) (hsize : size < 2 ^ 32) :
    ∃ p K', K.kzalloc size = (p, K') ∧ Steps b K K' ∧ Clear b p := by
  unfold Fs.kzalloc
  rcases kzalloc_cases h.kernel hsize with he | ⟨b', n, k', he, ht⟩
  · rw [he]
    exact ⟨0, _, rfl, .of_eq h rfl rfl rfl, clear_zero h.held.lt⟩
  · rw [he]
    refine ⟨_, _, rfl, ⟨ht.kernel, ht.held h.held, fun _ h => h, fun _ h => ⟨h.1, h.2, h.3⟩⟩,
      ?_⟩
    unfold Clear
    rw [freedBlock_blockAddr ht.lt]
    exact ht.ne h.held.taken

theorem Steps.follow (h : Rooted b K) (p : Nat) : Steps b K (K.follow p) :=
  .of_eq h (follow_heap K.kmem p) rfl rfl

theorem Steps.kfree (h : Rooted b K) (hp : Clear b p) : Steps b K (K.kfree p) where
  kernel := h.kernel.kfree p
  held := h.held.kfree h.kernel hp
  directories := fun _ h => h
  items := fun _ h => ⟨h.1, h.2, h.3⟩

theorem Steps.setFatDirectory (h : Rooted b K) (d : Nat) {v : FatDirectory} (hv : Clear b v.item) :
    Steps b K (K.setFatDirectory d v) ∧ ClearDirectory b (K.setFatDirectory d v) d := by
  have hdir : ∀ d', ClearDirectory b K d' ∨ d' = d → ClearDirectory b (K.setFatDirectory d v) d' :=
    fun d' hd' => by
      unfold ClearDirectory Fs.setFatDirectory
      dsimp only
      by_cases he : d' = d
      · rw [he, Function.update_self]
        exact hv
      · rw [Function.update_of_ne he]
        exact hd'.resolve_right he
  exact ⟨⟨h.kernel, h.held, fun d' hd' => hdir d' (.inl hd'), fun p hp =>
    ⟨hp.self, hp.item, fun ht => (hp.directory ht).imp_right fun hd' => hdir _ (.inl hd')⟩⟩,
    hdir d (.inr rfl)⟩

theorem Steps.setFatItem (h : Rooted b K) {f : Nat} (hf : Clear b f) {v : FatItem}
    (hv : Clear b v.item) (hd : v.type = .directory → v.item = 0 ∨ ClearDirectory b K v.item) :
    Steps b K (K.setFatItem f v) ∧ ClearItem b (K.setFatItem f v) f := by
  have hitem : ∀ p, ClearItem b K p ∨ p = f → ClearItem b (K.setFatItem f v) p := fun p hp => by
    by_cases he : p = f
    · have hat : (K.setFatItem f v).fatItemAt p = v := by
        unfold Fs.setFatItem
        dsimp only
        rw [he, Function.update_self]
      exact ⟨he ▸ hf, by rw [hat]; exact hv, by rw [hat]; exact hd⟩
    · have hat : (K.setFatItem f v).fatItemAt p = K.fatItemAt p := by
        unfold Fs.setFatItem
        dsimp only
        rw [Function.update_of_ne he]
      have hp := hp.resolve_right he
      exact ⟨hp.self, by rw [hat]; exact hp.item, by rw [hat]; exact hp.directory⟩
  exact ⟨⟨h.kernel, h.held, fun _ h => h, fun p hp => hitem p (.inl hp)⟩, hitem f (.inr rfl)⟩

/-! ## Directories and items -/

theorem Steps.freeDirectory (h : Rooted b K) {d : Nat}
    (hd : d = 0 ∨ Clear b d ∧ ClearDirectory b K d) : Steps b K (fat16FreeDirectory K d) := by
  unfold fat16FreeDirectory
  by_cases hz : d = 0
  · rw [if_pos hz]
    exact h
  · rw [if_neg hz]
    dsimp only
    obtain ⟨hclear, hdir⟩ := hd.resolve_left hz
    have hf := h.follow d
    split
    · have harray := hf.trans (hf.here.kfree (hf.directories d hdir))
      exact harray.trans (harray.here.kfree hclear)
    · exact hf.trans (hf.here.kfree hclear)

theorem Steps.fatItemFree (h : Rooted b K) (hp : ClearItem b K p) :
    Steps b K (fat16FatItemFree K p) := by
  have hf := h.follow p
  have hp' := hf.items p hp
  unfold fat16FatItemFree
  dsimp only
  cases ht : ((K.follow p).fatItemAt p).type with
  | directory =>
    have hd := hf.trans (hf.here.freeDirectory ((hp'.directory ht).imp_right fun hd => ⟨hp'.item, hd⟩))
    exact hd.trans (hd.here.kfree hp.self)
  | file =>
    have hc := hf.trans (hf.here.kfree hp'.item)
    exact hc.trans (hc.here.kfree hp.self)

/-- The count does not touch the heap. -/
theorem Steps.totalItems (h : Rooted b K) {sector : Nat} {r : Int × Fs}
    (he : fat16GetTotalItemsForDirectory K sector = some r) : Steps b K r.2 := by
  unfold fat16GetTotalItemsForDirectory at he
  dsimp only [diskstreamerSeek] at he
  rw [if_neg (show ¬ (0 : Int) ≠ allOk by decide)] at he
  split at he
  · cases he
  · cases he
    exact .of_eq h rfl rfl rfl

theorem Steps.loadFatDirectory_read (h : Rooted b K) {d : Nat} (hd : Clear b d)
    {item : FatDirectoryItem} {r : Nat × Fs} (he : fat16LoadFatDirectory.read K d item = some r) :
    Steps b K r.2 ∧ r.1 = d ∧ ClearDirectory b r.2 d := by
  unfold fat16LoadFatDirectory.read at he
  dsimp only at he
  split at he
  · cases he
  · rename_i total K₁ hcount
    have h₁ := h.totalItems hcount
    obtain ⟨p, K₂, hz, h₂, hp⟩ := h₁.here.kzalloc (Word.ofInt_lt (total * sizeofFatDirectoryItem))
    rw [hz] at he
    dsimp only at he
    obtain ⟨h₃, hdir⟩ := h₂.here.setFatDirectory d
      (v := { K₂.fatDirectoryAt d with item := p, total := total }) hp
    have hsteps := (h₁.trans h₂).trans h₃
    split at he
    · cases he
      have hfree := hsteps.here.freeDirectory (.inr ⟨hd, hdir⟩)
      exact ⟨hsteps.trans hfree, rfl, hfree.directories d hdir⟩
    · split at he
      · cases he
      · rename_i res priv m hread
        cases he
        have h₄ : ∀ K₃ K₄ : Fs, Steps b K K₃ → ClearDirectory b K₃ d →
            K₄.kmem.heap = K₃.kmem.heap → K₄.fatItemAt = K₃.fatItemAt →
            K₄.fatDirectoryAt = K₃.fatDirectoryAt →
            Steps b K K₄ ∧ ClearDirectory b K₄ d := fun _ _ hs hdir hheap hitems hdirs =>
          have hs' := Steps.of_eq hs.here hheap hitems hdirs
          ⟨hs.trans hs', hs'.directories d hdir⟩
        obtain ⟨hread, hdir'⟩ := h₄ _ (Fs.setDirectoryItems { Fs.setMem _ m with
          priv := { (Fs.setFatDirectory _ _ _).priv with toFatPrivate := priv } } p
            (directoryItems m p)) hsteps hdir rfl rfl rfl
        dsimp only
        split
        · have hfree := hread.here.freeDirectory (.inr ⟨hd, hdir'⟩)
          exact ⟨hread.trans hfree, rfl, hfree.directories d hdir'⟩
        · exact ⟨hread, rfl, hdir'⟩

theorem Steps.loadFatDirectory (h : Rooted b K) {item : FatDirectoryItem} {r : Nat × Fs}
    (he : fat16LoadFatDirectory K item = some r) :
    Steps b K r.2 ∧ (r.1 = 0 ∨ Clear b r.1 ∧ ClearDirectory b r.2 r.1) := by
  unfold fat16LoadFatDirectory at he
  split at he
  · cases he
    exact ⟨h, .inl rfl⟩
  · obtain ⟨d, K₁, hz, h₁, hd⟩ := h.kzalloc (show sizeofFatDirectory < 2 ^ 32 by decide)
    rw [hz] at he
    dsimp only at he
    split at he
    · cases he
      exact ⟨h₁, .inl rfl⟩
    · have h₂ := (h₁.here.setFatDirectory d (v := {}) (clear_zero h.held.lt)).1
      obtain ⟨h₃, hr, hdir⟩ := h₂.here.loadFatDirectory_read hd he
      exact ⟨(h₁.trans h₂).trans h₃, .inr ⟨hr ▸ hd, hr ▸ hdir⟩⟩

theorem Steps.newFatItem (h : Rooted b K) {array i : Nat} {r : Nat × Fs}
    (he : fat16NewFatItemForDirectoryItem K array i = some r) :
    Steps b K r.2 ∧ (r.1 = 0 ∨ ClearItem b r.2 r.1) := by
  unfold fat16NewFatItemForDirectoryItem at he
  dsimp only at he
  obtain ⟨f, K₁, hz, h₁, hf⟩ := h.kzalloc (show sizeofFatItem < 2 ^ 32 by decide)
  rw [hz] at he
  dsimp only at he
  split at he
  · cases he
    exact ⟨h₁, .inl rfl⟩
  · split at he
    · split at he
      · cases he
      · rename_i d K₂ hload
        cases he
        obtain ⟨h₂, hd⟩ := h₁.here.loadFatDirectory hload
        have hclear : Clear b d := by
          rcases hd with rfl | hd
          · exact clear_zero h.held.lt
          · exact hd.1
        obtain ⟨h₃, hitem⟩ := h₂.here.setFatItem hf (v := ⟨d, .directory, (array, i)⟩) hclear
          fun _ => hd.imp_right fun hd => hd.2
        exact ⟨(h₁.trans h₂).trans h₃, .inr hitem⟩
    · unfold fat16CloneDirectoryItem at he
      obtain ⟨c, K₂, hz₂, h₂, hc⟩ := h₁.here.kzalloc (show sizeofFatDirectoryItem < 2 ^ 32 by decide)
      rw [hz₂] at he
      dsimp only at he
      have hfile : ∀ K₃ : Fs, Steps b K K₃ → ∀ c', Clear b c' →
          Steps b K (K₃.setFatItem f ⟨c', .file, (array, i)⟩) ∧
            ClearItem b (K₃.setFatItem f ⟨c', .file, (array, i)⟩) f := fun _ hs c' hc' => by
        obtain ⟨h₃, hitem⟩ := hs.here.setFatItem hf (v := ⟨c', .file, (array, i)⟩) hc'
          fun ht => by cases ht
        exact ⟨hs.trans h₃, hitem⟩
      have h₁₂ := h₁.trans h₂
      split at he
      · cases he
        obtain ⟨h₃, hitem⟩ := hfile K₂ h₁₂ 0 (clear_zero h.held.lt)
        exact ⟨h₃, .inr hitem⟩
      · cases he
        obtain ⟨h₃, hitem⟩ := hfile (K₂.setDirectoryItems c fun _ => K.directoryItemsAt array i)
          (h₁₂.trans (.of_eq h₁₂.here rfl rfl rfl)) c hc
        exact ⟨h₃, .inr hitem⟩

theorem Steps.findItem_loop {array : Nat} {name : Nat → UInt8} {r : Nat × Fs} :
    ∀ (n i f : Nat) (K : Fs), Rooted b K → (f = 0 ∨ ClearItem b K f) →
      fat16FindItemInDirectory.loop array name n i f K = some r →
      Steps b K r.2 ∧ (r.1 = 0 ∨ ClearItem b r.2 r.1)
  | 0, _, _, _, h, hf, he => by
    cases he
    exact ⟨h, hf⟩
  | n + 1, i, f, K, h, hf, he => by
    unfold fat16FindItemInDirectory.loop at he
    dsimp only at he
    split at he
    · split at he
      · cases he
      · rename_i q K₁ hnew
        obtain ⟨h₁, hq⟩ := h.newFatItem hnew
        obtain ⟨h₂, hr⟩ := findItem_loop n (i + 1) q K₁ h₁.here hq he
        exact ⟨h₁.trans h₂, hr⟩
    · exact findItem_loop n (i + 1) f K h hf he

theorem Steps.findItem (h : Rooted b K) {directory : FatDirectory} {name : Nat → UInt8}
    {r : Nat × Fs} (he : fat16FindItemInDirectory K directory name = some r) :
    Steps b K r.2 ∧ (r.1 = 0 ∨ ClearItem b r.2 r.1) :=
  findItem_loop _ 0 0 K h (.inl rfl) he

/-! ## Opening -/

/-- The walk frees every item it leaves; none of them is null where the ghost is not set. -/
theorem Steps.directoryEntry_loop {r : Nat × Fs} :
    ∀ (n : Nat) (K : Fs) (currentItem nextPart : Nat), Rooted b K →
      (currentItem = 0 ∨ ClearItem b K currentItem) →
      fat16GetDirectoryEntry.loop n K currentItem nextPart = some r → r.2.kmem.fault = false →
      Steps b K r.2 ∧ (r.1 = 0 ∨ ClearItem b r.2 r.1)
  | 0, K, currentItem, nextPart, h, hc, he, _ => by
    unfold fat16GetDirectoryEntry.loop at he
    split at he
    · cases he
      exact ⟨h, hc⟩
    · cases he
  | n + 1, K, currentItem, nextPart, h, hc, he, hfault => by
    unfold fat16GetDirectoryEntry.loop at he
    dsimp only at he
    split at he
    · cases he
      exact ⟨h, hc⟩
    · have h₁ := h.follow currentItem
      split at he
      · cases he
        exact ⟨h₁, .inl rfl⟩
      · have h₂ := h₁.trans (h₁.here.follow nextPart)
        have h₃ := h₂.trans (h₂.here.follow
          (((K.follow currentItem).follow nextPart).fatItemAt currentItem).item)
        split at he
        · cases he
        · rename_i tmpItem K₄ hfind
          have hne : currentItem ≠ 0 := by
            rintro rfl
            have hzero : (K.follow 0).kmem.fault = true := by
              unfold Fs.follow
              rw [follow_zero]
            have hset := (((faults_follow _ _).trans (faults_follow _ _)).trans
              (faults_findItem_loop _ _ _ _ hfind)).trans ((faults_fatItemFree K₄ 0).trans
                (faults_directoryEntry_loop n _ _ _ he)) hzero
            rw [hset] at hfault
            cases hfault
          have hc := hc.resolve_left hne
          obtain ⟨h₄, htmp⟩ := h₃.here.findItem hfind
          have h₅ := h₃.trans h₄
          have h₆ := h₅.here.fatItemFree (h₅.items _ hc)
          obtain ⟨h₇, hr⟩ := directoryEntry_loop n _ _ _ h₆.here (htmp.imp_right (h₆.items _)) he
            hfault
          exact ⟨(h₅.trans h₆).trans h₇, hr⟩

theorem Steps.directoryEntry (h : Rooted b K) {path : Nat} {r : Nat × Fs}
    (he : fat16GetDirectoryEntry K path = some r) (hfault : r.2.kmem.fault = false) :
    Steps b K r.2 ∧ (r.1 = 0 ∨ ClearItem b r.2 r.1) := by
  unfold fat16GetDirectoryEntry at he
  dsimp only at he
  have h₁ := h.follow path
  split at he
  · cases he
  · rename_i rootItem K₂ hfind
    obtain ⟨h₂, hroot⟩ := h₁.here.findItem hfind
    have h₁₂ := h₁.trans h₂
    split at he
    · cases he
      exact ⟨h₁₂, .inl rfl⟩
    · obtain ⟨h₃, hr⟩ := Steps.directoryEntry_loop _ _ _ _ h₁₂.here hroot he hfault
      exact ⟨h₁₂.trans h₃, hr⟩

/-- The descriptor that is opened, and its item. -/
structure ClearDescriptor (b : Nat) (K : Fs) (p : Nat) : Prop where
  self : Clear b p
  item : ClearItem b K (K.fatDescriptorAt p).item

theorem Steps.open (h : Rooted b K) {path : Nat} {mode : FileMode} {r : Nat × Fs}
    (he : fat16Open K path mode = some r) (hfault : r.2.kmem.fault = false)
    (hok : iserr r.1 = false) : Steps b K r.2 ∧ ClearDescriptor b r.2 r.1 := by
  unfold fat16Open at he
  dsimp only at he
  split at he
  · cases he
    exact absurd hok (not_iserr_ne (by decide) (by decide))
  · obtain ⟨d, K₁, hz, h₁, hd⟩ := h.kzalloc (show sizeofFatDescriptor < 2 ^ 32 by decide)
    rw [hz] at he
    dsimp only at he
    split at he
    · cases he
      exact absurd hok (not_iserr_ne (by decide) (by decide))
    · split at he
      · cases he
      · rename_i item K₂ hentry
        split at he
        · cases he
          exact absurd hok (not_iserr_ne (by decide) (by decide))
        · rename_i hitem
          cases he
          obtain ⟨h₂, hclear⟩ := h₁.here.directoryEntry hentry hfault
          have h₁₂ := h₁.trans h₂
          have h₃ : Steps b K₂ (K₂.setFatDescriptor d ⟨item, 0⟩) :=
            h₁₂.here.setFatDescriptor d ⟨item, 0⟩
          have hat : (K₂.setFatDescriptor d ⟨item, 0⟩).fatDescriptorAt d = ⟨item, 0⟩ := by
            unfold Fs.setFatDescriptor
            dsimp only
            rw [Function.update_self]
          refine ⟨h₁₂.trans h₃, hd, ?_⟩
          rw [hat]
          exact h₃.items _ (hclear.resolve_left hitem)

/-! ## The path -/

theorem Steps.getPathPart (h : Rooted b K) (path : List UInt8) :
    Steps b K (pathparserGetPathPart K path).2.2 ∧ Clear b (pathparserGetPathPart K path).1 := by
  obtain ⟨p, K₁, hz, h₁, hp⟩ := h.kzalloc (show maxPath < 2 ^ 32 by decide)
  unfold pathparserGetPathPart
  rw [hz]
  dsimp only
  split
  · exact ⟨h₁, clear_zero h.held.lt⟩
  · have h₂ := h₁.setMem (writeBytes K₁.mem p (path.takeWhile fun c => c ≠ slash ∧ c ≠ 0))
    split
    · exact ⟨h₂.trans (h₂.here.kfree hp), clear_zero h.held.lt⟩
    · exact ⟨h₂, hp⟩

theorem Steps.parsePathPart (h : Rooted b K) (lastPart : Nat) (path : List UInt8) :
    Steps b K (pathparserParsePathPart K lastPart path).2.2 := by
  obtain ⟨h₁, hstr⟩ := h.getPathPart path
  obtain ⟨str, rest, K₁, hr⟩ : ∃ str rest K₁, pathparserGetPathPart K path = (str, rest, K₁) :=
    ⟨_, _, _, rfl⟩
  unfold pathparserParsePathPart
  rw [hr] at h₁ hstr ⊢
  dsimp only at h₁ hstr ⊢
  split
  · exact h₁
  · obtain ⟨part, K₂, hz, h₂, -⟩ := h₁.here.kzalloc (show sizeofPathPart < 2 ^ 32 by decide)
    have h₁₂ := h₁.trans h₂
    rw [hz]
    dsimp only
    split
    · exact h₁₂.trans (h₁₂.here.kfree hstr)
    · have h₃ := h₁₂.setPathPart part ⟨str, 0⟩
      split
      · exact (h₃.trans (h₃.here.follow lastPart)).setPathPart lastPart _
      · exact h₃

theorem Steps.parse_loop : ∀ (n : Nat) (K : Fs) (part : Nat) (path : List UInt8), Rooted b K →
    Steps b K (pathparserParse.loop n K part path)
  | 0, _, _, _, h => h
  | n + 1, K, part, path, h => by
    unfold pathparserParse.loop
    dsimp only
    have h₁ := h.parsePathPart part path
    split
    · exact h₁
    · exact h₁.trans (parse_loop n _ _ _ h₁.here)

/-- The root takes a block that was free. -/
theorem createRoot_cases (hk : K.kmem.heap.Kernel) (hc : Closed K.entries) (driveNumber : Int) :
    (pathparserCreateRoot K driveNumber).1 = 0 ∨
    ∃ b K', pathparserCreateRoot K driveNumber = (blockAddr b, K') ∧ Free (K.entries b) ∧
      Rooted b K' := by
  unfold pathparserCreateRoot Fs.kzalloc
  dsimp only
  rcases kzalloc_cases hk (show sizeofPathRoot < 2 ^ 32 by decide) with he | ⟨b, n, k', he, ht⟩
  · rw [he]
    exact .inl rfl
  · rw [he]
    dsimp only
    rw [if_neg (blockAddr_ne_zero b)]
    exact .inr ⟨b, _, rfl, ht.here, rooted ht.kernel (ht.self (ht.pos (by decide) (by decide)) hc)⟩

/-- The root of a path that is parsed is held. -/
theorem parse_rooted (hk : K.kmem.heap.Kernel) (hc : Closed K.entries) (path : List UInt8)
    (h0 : (pathparserParse K path).1 ≠ 0) :
    ∃ b, Free (K.entries b) ∧ Rooted b (pathparserParse K path).2 := by
  unfold pathparserParse at h0 ⊢
  dsimp only at h0 ⊢
  by_cases hlen : path.length > maxPath
  · rw [if_pos hlen] at h0
    exact absurd rfl h0
  · rw [if_neg hlen] at h0 ⊢
    by_cases hres : (pathparserGetDriveByPath path).1 < 0
    · rw [if_pos hres] at h0
      exact absurd rfl h0
    · rw [if_neg hres] at h0 ⊢
      rcases createRoot_cases hk hc (pathparserGetDriveByPath path).1 with hz |
        ⟨b, K', he, hfree, hroot⟩
      · rw [if_pos hz] at h0
        exact absurd rfl h0
      · rw [he] at h0 ⊢
        dsimp only at h0 ⊢
        rw [if_neg (blockAddr_ne_zero b)] at h0 ⊢
        refine ⟨b, hfree, ?_⟩
        have h₁ := hroot.parsePathPart 0 (pathparserGetDriveByPath path).2
        split at h0
        · exact absurd rfl h0
        · rename_i hfirst
          rw [if_neg hfirst]
          dsimp only
          refine (Steps.parse_loop _ _ _ _ ?_).here
          exact (h₁.setPathRoot _ _).here

/-! ## `fopen` -/

theorem out_zero {K : Fs} {rootPath : Nat} {disk : Bool} {priv desc : Nat} {r : Int × Fs}
    (he : fopen.out K rootPath disk priv desc = some r) : r.1 = 0 := by
  unfold fopen.out at he
  split at he
  · cases he
  · cases he
    rfl

/-- The descriptor of number `fd` is clear of `b`, with all that closing it frees. -/
structure Opened (b : Nat) (K : Fs) (fd : Int) : Prop where
  rooted : Rooted b K
  desc : Clear b (K.fileDescriptors (fd - 1).toNat)
  priv : ClearDescriptor b K (K.fileDescriptorAt (K.fileDescriptors (fd - 1).toNat)).priv

theorem Steps.clearDescriptor (h : Steps b K K') (hp : ClearDescriptor b K p)
    (hat : (K'.fatDescriptorAt p).item = (K.fatDescriptorAt p).item) : ClearDescriptor b K' p :=
  ⟨hp.self, by rw [hat]; exact h.items _ hp.item⟩

theorem Steps.newDescriptor_loop {r : Int × Nat × Fs} :
    ∀ (n i : Nat) (K : Fs), Rooted b K → fileNewDescriptor.loop n i K = r → 0 ≤ r.1 →
      Steps b K r.2.2 ∧ r.2.2.fatDescriptorAt = K.fatDescriptorAt ∧
        Clear b r.2.1 ∧ ∃ j, (r.2.2.fileDescriptorAt r.2.1).index = j + 1 ∧
          r.2.2.fileDescriptors j = r.2.1
  | 0, _, _, _, he, hr => by
    subst he
    exact absurd hr (show ¬ (0 : Int) ≤ -enomem by decide)
  | n + 1, i, K, h, he, hr => by
    unfold fileNewDescriptor.loop at he
    dsimp only at he
    split at he
    · obtain ⟨d, K₁, hz, h₁, hd⟩ := h.kzalloc (show sizeofFileDescriptor < 2 ^ 32 by decide)
      have hat : (K.kzalloc sizeofFileDescriptor).2.fatDescriptorAt = K.fatDescriptorAt := rfl
      rw [hz] at he hat
      dsimp only at he hat
      subst he
      have h₂ := h₁.trans (h₁.here.follow d)
      refine ⟨(h₂.setFileDescriptor d _).setFileDescriptors i d, hat, hd, i, ?_, ?_⟩
      · unfold Fs.setFileDescriptors Fs.setFileDescriptor
        dsimp only
        rw [Function.update_self]
      · unfold Fs.setFileDescriptors
        dsimp only
        rw [Function.update_self]
    · exact newDescriptor_loop n (i + 1) K h he hr

theorem open_opened (h : Rooted b K) {rootPath : Nat} {mode : FileMode} {fd : Int}
    (he : fopen.open K rootPath mode = some (fd, K')) (hfd : fd ≠ 0)
    (hfault : K'.kmem.fault = false) : Opened b K' fd := by
  unfold fopen.open at he
  dsimp only at he
  split at he
  · cases he
  · rename_i priv K₁ hopen
    split at he
    · exact absurd (out_zero he) hfd
    · rename_i hok
      split at he
      · exact absurd (out_zero he) hfd
      · rename_i hres
        obtain ⟨res, desc, K₂, hnew⟩ : ∃ res desc K₂, fileNewDescriptor K₁ = (res, desc, K₂) :=
          ⟨_, _, _, rfl⟩
        have hmono := faults_newDescriptor_loop maxFileDescriptors 0 K₁
        unfold fileNewDescriptor at hnew he hres
        rw [hnew] at he hres hmono
        dsimp only at he hres hmono
        have hfault₁ : K₁.kmem.fault = false := by
          by_contra hne
          rw [Bool.not_eq_false] at hne
          have hset := faults_follow K₂ desc (hmono hne)
          cases he
          exact absurd (hset.symm.trans hfault) (by decide)
        obtain ⟨h₁, hpriv⟩ := h.open hopen hfault₁ (Bool.not_eq_true _ ▸ hok)
        obtain ⟨h₂, hat, hd, j, hindex, htable⟩ := Steps.newDescriptor_loop _ _ _ h₁.here hnew
          (Int.not_lt.1 hres)
        have h₃ := (h₁.trans h₂).trans ((h₁.trans h₂).here.follow desc)
        have h₂' := h₂.trans (h₂.here.follow desc)
        obtain ⟨K₃, hK₃⟩ : ∃ K₃, (K₂.follow desc).setFileDescriptor desc
          { (K₂.follow desc).fileDescriptorAt desc with priv := priv } = K₃ := ⟨_, rfl⟩
        rw [hK₃] at he
        have hdesc : K₃.fileDescriptorAt desc = { K₂.fileDescriptorAt desc with priv := priv } := by
          subst hK₃
          exact Function.update_self _ _ _
        have hst : Steps b K₁ K₃ := by
          subst hK₃
          exact h₂'.setFileDescriptor desc _
        have htable₃ : K₃.fileDescriptors = K₂.fileDescriptors := by
          subst hK₃
          rfl
        have hat₃ : K₃.fatDescriptorAt = K₁.fatDescriptorAt := by
          subst hK₃
          exact hat
        obtain ⟨hindex₃, hK'⟩ := Prod.mk.inj (Option.some.inj he)
        subst hK'
        have hnat : (fd - 1).toNat = j := by
          rw [← hindex₃, hdesc]
          dsimp only at hindex ⊢
          rw [hindex]
          omega
        have hcell : K₃.fileDescriptors j = desc := by
          rw [htable₃]
          exact htable
        refine ⟨hst.here, ?_, ?_⟩
        · rw [hnat, hcell]
          exact hd
        · rw [hnat, hcell, hdesc]
          exact hst.clearDescriptor hpriv (by rw [hat₃])

theorem fopen_opened (hk : K.kmem.heap.Kernel) (hc : Closed K.entries) {path mode : List UInt8}
    {fd : Int} (he : fopen K path mode = some (fd, K')) (hfd : fd ≠ 0)
    (hfault : K'.kmem.fault = false) : ∃ b, Free (K.entries b) ∧ Opened b K' fd := by
  unfold fopen at he
  dsimp only at he
  split at he
  · exact absurd (out_zero he) hfd
  · rename_i hroot
    obtain ⟨b, hfree, h₁⟩ := parse_rooted hk hc path hroot
    split at he
    · exact absurd (out_zero he) hfd
    · split at he
      · exact absurd (out_zero he) hfd
      · split at he
        · exact absurd (out_zero he) hfd
        · split at he
          · exact absurd (out_zero he) hfd
          · exact ⟨b, hfree, open_opened h₁ he hfd hfault⟩

theorem Steps.fatClose (h : Rooted b K) (hp : ClearDescriptor b K p) :
    Steps b K (fat16Close K p).2 := by
  unfold fat16Close fat16FreeFileDescriptor
  dsimp only
  obtain ⟨K₁, hK₁⟩ : ∃ K₁ : Fs, { K with closed := p :: K.closed } = K₁ := ⟨_, rfl⟩
  have h₁ : Steps b K K₁ := by
    subst hK₁
    exact .of_eq h rfl rfl rfl
  have hp₁ : ClearDescriptor b K₁ p := h₁.clearDescriptor hp (by rw [← hK₁])
  rw [hK₁]
  have h₂ := h₁.trans (h₁.here.follow p)
  have hp₂ : ClearDescriptor b (K₁.follow p) p := (h₁.here.follow p).clearDescriptor hp₁ rfl
  have h₃ := h₂.trans (h₂.here.fatItemFree hp₂.item)
  exact h₃.trans (h₃.here.kfree hp.self)

theorem Steps.fileFreeDescriptor (h : Rooted b K) (hp : Clear b p) :
    Steps b K (fileFreeDescriptor K p) := by
  unfold Pandora.fileFreeDescriptor
  dsimp only
  have h₁ := (h.follow p).setFileDescriptors (((K.follow p).fileDescriptorAt p).index - 1) 0
  exact h₁.trans (h₁.here.kfree hp)

/-- Closing gives back the descriptor and its item, and the block is held still. -/
theorem Opened.fclose {fd : Int} (h : Opened b K fd) : Held (K.fclose fd).2.entries b := by
  unfold Fs.fclose Fs.fileGetDescriptor
  dsimp only
  by_cases hz : (if fd ≤ 0 ∨ fd ≥ 512 then 0 else K.fileDescriptors (fd - 1).toNat) = 0
  · rw [if_pos hz]
    exact h.rooted.held
  · rw [if_neg hz]
    have hin : ¬ (fd ≤ 0 ∨ fd ≥ 512) := fun hc => hz (if_pos hc)
    rw [if_neg hin]
    obtain ⟨desc, hdesc⟩ : ∃ desc, K.fileDescriptors (fd - 1).toNat = desc := ⟨_, rfl⟩
    have hd := h.desc
    have hp := h.priv
    rw [hdesc] at hd hp ⊢
    have h₁ := h.rooted.follow desc
    have h₂ := h₁.trans (h₁.here.fatClose (h₁.clearDescriptor hp rfl))
    have hok : ((fat16Close (K.follow desc) ((K.follow desc).fileDescriptorAt desc).priv).1) =
        allOk := rfl
    rw [if_pos hok]
    exact (h₂.here.fileFreeDescriptor hd).held

end

/-! ## Calls in between -/

section

variable {b : Nat} {K K' : Fs} {fd : Int}

/-- The heap, the items and the descriptors are the same up to positions. -/
structure Same (K K' : Fs) : Prop where
  heap : K'.kmem.heap = K.kmem.heap
  items : K'.fatItemAt = K.fatItemAt
  directories : K'.fatDirectoryAt = K.fatDirectoryAt
  descriptors : ∀ p, (K'.fatDescriptorAt p).item = (K.fatDescriptorAt p).item
  files : K'.fileDescriptorAt = K.fileDescriptorAt
  table : K'.fileDescriptors = K.fileDescriptors

theorem Same.trans {K'' : Fs} (h : Same K K') (h' : Same K' K'') : Same K K'' :=
  ⟨h'.heap.trans h.heap, h'.items.trans h.items, h'.directories.trans h.directories,
    fun p => (h'.descriptors p).trans (h.descriptors p), h'.files.trans h.files,
    h'.table.trans h.table⟩

theorem Same.follow (K : Fs) (p : Nat) : Same K (K.follow p) :=
  ⟨follow_heap K.kmem p, rfl, rfl, fun _ => rfl, rfl, rfl⟩

theorem Same.setPos (K : Fs) (p pos : Nat) :
    Same K (K.setFatDescriptor p { K.fatDescriptorAt p with pos := pos }) := by
  refine ⟨rfl, rfl, rfl, fun q => ?_, rfl, rfl⟩
  unfold Fs.setFatDescriptor
  dsimp only
  by_cases hq : q = p
  · rw [hq, Function.update_self]
  · rw [Function.update_of_ne hq]

theorem Opened.same (h : Opened b K fd) (hs : Same K K') : Opened b K' fd := by
  have hst : Steps b K K' := .of_eq h.rooted hs.heap hs.items hs.directories
  refine ⟨hst.here, ?_, ?_⟩
  · rw [hs.table]
    exact h.desc
  · rw [hs.table, hs.files]
    exact hst.clearDescriptor h.priv (hs.descriptors _)

theorem Same.stat (K : Fs) (fd : Int) : Same K (K.fstat fd).2.2 := by
  have hs : ∀ (K : Fs) (priv : Nat), Same K (fat16Stat K priv).2.2 := fun K priv => by
    have h₁ := (Same.follow K priv).trans (.follow _ (K.fatDescriptorAt priv).item)
    unfold fat16Stat
    dsimp only
    split
    · exact h₁
    · exact h₁.trans (.follow _ _)
  unfold Fs.fstat
  dsimp only
  split
  · exact ⟨rfl, rfl, rfl, fun _ => rfl, rfl, rfl⟩
  · exact (Same.follow K _).trans (hs _ _)

theorem Same.seek (K : Fs) (fd offset : Int) (whence : Nat) : Same K (K.fseek fd offset whence).2 := by
  have hs : ∀ (K : Fs) (priv offset whence : Nat), Same K (K.fat16Seek priv offset whence).2 :=
    fun K priv offset whence => by
      have h₁ := (Same.follow K priv).trans (.follow _ (K.fatDescriptorAt priv).item)
      unfold Fs.fat16Seek
      dsimp only
      split
      · have h₂ := h₁.trans (.follow _ (K.fatItemAt (K.fatDescriptorAt priv).item).item)
        exact h₂.trans (.setPos _ _ _)
      · exact h₁.trans (.setPos _ _ _)
  unfold Fs.fseek
  dsimp only
  split
  · exact ⟨rfl, rfl, rfl, fun _ => rfl, rfl, rfl⟩
  · exact (Same.follow K _).trans (hs _ _ _ _)

theorem Same.read {K : Fs} {ptr size nmemb : Nat} {fd res : Int}
    (he : K.fread ptr size nmemb fd = some (res, K')) : Same K K' := by
  have hs : ∀ (K : Fs) (priv : Nat), K.fat16Read priv size nmemb ptr = some (res, K') →
      Same K K' := fun K priv he => by
    have h₁ := (Same.follow K priv).trans (.follow _ (K.fatDescriptorAt priv).item)
    have hset : ∀ (K₁ : Fs) (m : Mem) (v : FatVolume) (pos : Nat), Same K K₁ →
        K₁.fatDescriptorAt = K.fatDescriptorAt → Same K (Fs.setFatDescriptor
          { K₁.setMem m with priv := v } priv { K.fatDescriptorAt priv with pos := pos }) :=
      fun K₁ m v pos hK₁ hat => by
        have hmem : Same K₁ { K₁.setMem m with priv := v } :=
          ⟨rfl, rfl, rfl, fun _ => rfl, rfl, rfl⟩
        rw [← hat]
        exact (hK₁.trans hmem).trans (.setPos _ _ _)
    unfold Fs.fat16Read at he
    dsimp only at he
    by_cases hn : nmemb = 0
    · rw [if_pos hn] at he
      split at he
      · cases he
      · cases he
        exact hset _ _ _ _ h₁ rfl
    · rw [if_neg hn] at he
      split at he
      · cases he
      · cases he
        exact hset _ _ _ _ (h₁.trans (.follow _ _)) rfl
  unfold Fs.fread at he
  dsimp only at he
  split at he
  · cases he
    exact ⟨rfl, rfl, rfl, fun _ => rfl, rfl, rfl⟩
  · split at he
    · cases he
      exact ⟨rfl, rfl, rfl, fun _ => rfl, rfl, rfl⟩
    · exact (Same.follow K _).trans (hs _ _ he)

end

end Leak

/-! ## Opening and closing -/

/-- The calls on descriptors between opening and closing. -/
inductive FileCall where
  | read (ptr size nmemb : Nat) (fd : Int)
  | seek (fd offset : Int) (whence : Nat)
  | stat (fd : Int)
deriving DecidableEq, Repr

/-- `none` is a read that does not return. -/
def FileCall.step (K : Fs) : FileCall → Option Fs
  | read ptr size nmemb fd => (K.fread ptr size nmemb fd).map Prod.snd
  | seek fd offset whence => some (K.fseek fd offset whence).2
  | stat fd => some (K.fstat fd).2.2

def FileCall.run (K : Fs) : List FileCall → Option Fs
  | [] => some K
  | c :: calls =>
    match c.step K with
    | none => none
    | some K => run K calls

/-- The block table and the descriptor table are as before. -/
def Neutral (K K' : Fs) : Prop :=
  (∀ j < 25600, K'.entries j = K.entries j) ∧ K'.fileDescriptors = K.fileDescriptors

namespace Leak

variable {b : Nat} {K K' : Fs} {fd : Int}

theorem Opened.step (h : Opened b K fd) {c : FileCall} (he : c.step K = some K') :
    Opened b K' fd := by
  cases c with
  | read ptr size nmemb fd' =>
    obtain ⟨⟨res, K₁⟩, hread, rfl⟩ := Option.map_eq_some_iff.1 he
    exact h.same (.read hread)
  | seek fd' offset whence =>
    cases he
    exact h.same (.seek K fd' offset whence)
  | stat fd' =>
    cases he
    exact h.same (.stat K fd')

theorem Opened.run (h : Opened b K fd) : ∀ {calls : List FileCall},
    FileCall.run K calls = some K' → Opened b K' fd := by
  intro calls
  induction calls generalizing K with
  | nil =>
    intro he
    cases he
    exact h
  | cons c calls ih =>
    intro he
    unfold FileCall.run at he
    split at he
    · cases he
    · rename_i K₁ hstep
      exact ih (h.step hstep) he

end Leak

/-- **Opening and closing loses a block**: the root of the path, whatever is opened and whatever is
done with it in between. -/
theorem open_close_never_neutral {K K₁ K₂ : Fs} (hk : K.kmem.heap.Kernel) (hc : Closed K.entries)
    {path mode : List UInt8} {fd : Int} (hopen : fopen K path mode = some (fd, K₁)) (hfd : fd ≠ 0)
    (hfault : K₁.kmem.fault = false) {calls : List FileCall}
    (hrun : FileCall.run K₁ calls = some K₂) : ¬ Neutral K (K₂.fclose fd).2 := by
  obtain ⟨b, hfree, hopened⟩ := Leak.fopen_opened hk hc hopen hfd hfault
  have hheld := (hopened.run hrun).fclose
  rintro ⟨hentries, -⟩
  refine hheld.taken ?_
  rw [hentries b hheld.lt]
  exact hfree

/-- A file named "A". -/
def fileA : FatDirectoryItem where
  filename := 0x41 :: List.replicate 7 0x20
  ext := List.replicate 3 0x20
  high16BitsFirstCluster := 0
  low16BitsFirstCluser := 2

/-- The root directory, in block 0, has these entries; all other blocks are free. -/
def rootFs (items : List FatDirectoryItem) : Fs where
  kmem :=
    { heap :=
        { saddr := 0x01000000
          table := { entries := fun j => if j = 0 then 0x41 else 0, total := 25600 } }
      mem := fun _ => 0 }
  disk := { image := fun _ => 0 }
  hasFilesystem := true
  priv :=
    { reservedSectors := 1
      sectorsPerCluster := 1
      endingSectorPos := 3
      rootDirEntries := 16
      fatCopies := 1
      sectorsPerFat := 1
      rootItem := 0x01000000
      rootTotal := items.length }
  pathRootAt := fun _ => {}
  pathPartAt := fun _ => {}
  fatItemAt := fun _ => {}
  fatDirectoryAt := fun _ => {}
  directoryItemsAt := fun _ i => items.getD i fileA
  fatDescriptorAt := fun _ => {}
  fileDescriptorAt := fun _ => {}
  fileDescriptors := fun _ => 0

/-- `0:/A` -/
def pathA : List UInt8 := [0x30, 0x3A, 0x2F, 0x41]

def modeR : List UInt8 := [0x72]

/-- Opening and closing "A" leaves block 1 taken, where the root of the path is. -/
theorem rootFs_open : ∃ K₁, fopen (rootFs [fileA]) pathA modeR = some (1, K₁) ∧
    K₁.kmem.fault = false ∧ (K₁.fclose 1).2.entries 1 = 0x41 := by
  have hrun : (fopen (rootFs [fileA]) pathA modeR).map
      (fun r => (r.1, r.2.kmem.fault, (r.2.fclose 1).2.entries 1)) = some (1, false, 0x41) := by
    decide +kernel
  obtain ⟨⟨fd, K₁⟩, he, hr⟩ := Option.map_eq_some_iff.1 hrun
  obtain ⟨hfd, hr⟩ := Prod.mk.inj hr
  obtain ⟨hfault, hentry⟩ := Prod.mk.inj hr
  dsimp only at hfd
  exact ⟨K₁, by rw [he, hfd], hfault, hentry⟩

theorem open_close_leaks : ∃ K₁, fopen (rootFs [fileA]) pathA modeR = some (1, K₁) ∧
    ¬ Neutral (rootFs [fileA]) (K₁.fclose 1).2 := by
  obtain ⟨K₁, he, -, hentry⟩ := rootFs_open
  refine ⟨K₁, he, fun h => ?_⟩
  have hzero := h.1 1 (by decide)
  rw [hentry] at hzero
  exact absurd hzero (by decide)

theorem rootFs_closed (items : List FatDirectoryItem) : Closed (rootFs items).entries := fun a _ _ => by
  have hentry : (rootFs items).entries a = if a = 0 then 0x41 else 0 := rfl
  rw [hentry]
  split <;> decide

theorem open_close_never_neutral_A : ∃ K₁, fopen (rootFs [fileA]) pathA modeR = some (1, K₁) ∧
    ¬ Neutral (rootFs [fileA]) (K₁.fclose 1).2 := by
  obtain ⟨K₁, he, hfault, -⟩ := rootFs_open
  exact ⟨K₁, he, open_close_never_neutral ⟨rfl, rfl⟩ (rootFs_closed _) he (by decide) hfault
    (show FileCall.run K₁ [] = some K₁ from rfl)⟩

end Pandora
