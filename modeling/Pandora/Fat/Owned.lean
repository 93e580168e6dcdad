import Pandora.Fat.Loaded
import Pandora.Fat.Open
import Pandora.Heap.Ledger

/-!
# The blocks of an item (`fs/fat/fat16.c`)

The ledger of what a lookup takes. `ItemBlocks K f B`: `B` is what `fat16_fat_item_free` gives back for
the item at `f`, in its order. A lookup whose name one entry has, and which builds the item of that
entry whole (`SearchedOnce`), adds exactly the blocks of the item it returns; the walk along a path
frees every item it leaves (`WalksOnce`), so what it takes are the blocks of the last one.
-/

namespace Pandora

open ByteMem

/-! ## What stays -/

/-- Neither the table of descriptors nor the calls of `close` have changed. -/
structure Quiet (K K' : Fs) : Prop where
  table : K'.fileDescriptors = K.fileDescriptors
  closed : K'.closed = K.closed

/-- Nor has the parsed path. -/
structure Leaves (K K' : Fs) : Prop extends Quiet K K' where
  roots : K'.pathRootAt = K.pathRootAt
  parts : K'.pathPartAt = K.pathPartAt

section

variable {K K' K'' : Fs}

theorem Quiet.trans (h : Quiet K K') (h' : Quiet K' K'') : Quiet K K'' :=
  ⟨h'.table.trans h.table, h'.closed.trans h.closed⟩

theorem Leaves.refl (K : Fs) : Leaves K K := ⟨⟨rfl, rfl⟩, rfl, rfl⟩

theorem Leaves.trans (h : Leaves K K') (h' : Leaves K' K'') : Leaves K K'' :=
  ⟨h.toQuiet.trans h'.toQuiet, h'.roots.trans h.roots, h'.parts.trans h.parts⟩

/-- What a lookup does not touch. -/
def Fs.core (K : Fs) :=
  (K.fileDescriptors, K.closed, K.pathRootAt, K.pathPartAt, K.fatDescriptorAt, K.fileDescriptorAt)

theorem Leaves.of_core (h : K'.core = K.core) : Leaves K K' := by
  unfold Fs.core at h
  simp only [Prod.mk.injEq] at h
  obtain ⟨htable, hclosed, hroots, hparts, -⟩ := h
  exact ⟨⟨htable, hclosed⟩, hroots, hparts⟩

theorem core_freeDirectory (K : Fs) (d : Nat) : (fat16FreeDirectory K d).core = K.core := by
  unfold fat16FreeDirectory
  split
  · rfl
  · dsimp only
    split <;> rfl

theorem core_fatItemFree (K : Fs) (p : Nat) : (fat16FatItemFree K p).core = K.core := by
  unfold fat16FatItemFree
  dsimp only
  split
  · exact core_freeDirectory (K.follow p) _
  · rfl

theorem core_totalItems {sector : Nat} {r : Int × Fs}
    (he : fat16GetTotalItemsForDirectory K sector = some r) : r.2.core = K.core := by
  rcases totalItems_cases K sector with ⟨-, hc⟩ | ⟨-, total, stream, hc⟩
  · rw [hc] at he
    cases he
  · rw [hc] at he
    cases he
    rfl

theorem core_loadFatDirectory {item : FatDirectoryItem} {r : Nat × Fs}
    (he : fat16LoadFatDirectory K item = some r) : r.2.core = K.core := by
  unfold fat16LoadFatDirectory at he
  dsimp only at he
  split at he
  · cases he
    rfl
  · split at he
    · cases he
      rfl
    · unfold fat16LoadFatDirectory.read at he
      dsimp only at he
      split at he
      · cases he
      · rename_i total K₁ hcount
        have h₁ : K₁.core = K.core := core_totalItems hcount
        split at he
        · cases he
          exact (core_freeDirectory _ _).trans h₁
        · split at he
          · cases he
          · cases he
            dsimp only
            split
            · exact (core_freeDirectory _ _).trans h₁
            · exact h₁

theorem core_newFatItem {array i : Nat} {r : Nat × Fs}
    (he : fat16NewFatItemForDirectoryItem K array i = some r) : r.2.core = K.core := by
  unfold fat16NewFatItemForDirectoryItem fat16CloneDirectoryItem at he
  dsimp only at he
  split at he
  · cases he
    rfl
  · split at he
    · split at he
      · cases he
      · rename_i d K₂ hload
        cases he
        have h₁ := core_loadFatDirectory hload
        exact h₁
    · cases he
      dsimp only
      split <;> rfl

theorem core_findItem_loop {array : Nat} {name : Nat → UInt8} {r : Nat × Fs} :
    ∀ (n i f : Nat) (K : Fs), fat16FindItemInDirectory.loop array name n i f K = some r →
      r.2.core = K.core
  | 0, _, _, K, he => by
    cases he
    rfl
  | n + 1, i, f, K, he => by
    unfold fat16FindItemInDirectory.loop at he
    dsimp only at he
    split at he
    · split at he
      · cases he
      · rename_i q K₁ hnew
        exact (core_findItem_loop n (i + 1) q K₁ he).trans (core_newFatItem hnew)
    · exact core_findItem_loop n (i + 1) f K he

theorem core_directoryEntry_loop {r : Nat × Fs} :
    ∀ (n : Nat) (K : Fs) (currentItem nextPart : Nat),
      fat16GetDirectoryEntry.loop n K currentItem nextPart = some r → r.2.core = K.core
  | 0, K, currentItem, nextPart, he => by
    unfold fat16GetDirectoryEntry.loop at he
    split at he
    · cases he
      rfl
    · cases he
  | n + 1, K, currentItem, nextPart, he => by
    unfold fat16GetDirectoryEntry.loop at he
    dsimp only at he
    split at he
    · cases he
      rfl
    · split at he
      · cases he
        rfl
      · split at he
        · cases he
        · rename_i tmpItem K₄ hfind
          have h₁ : K₄.core = K.core := core_findItem_loop _ _ _ _ hfind
          have h₂ := core_directoryEntry_loop n _ _ _ he
          exact (h₂.trans (core_fatItemFree K₄ currentItem)).trans h₁

theorem core_directoryEntry {path : Nat} {r : Nat × Fs}
    (he : fat16GetDirectoryEntry K path = some r) : r.2.core = K.core := by
  unfold fat16GetDirectoryEntry at he
  dsimp only at he
  split at he
  · cases he
  · rename_i rootItem K₂ hfind
    have h₁ : K₂.core = K.core := core_findItem_loop _ _ _ _ hfind
    split at he
    · cases he
      exact h₁
    · exact (core_directoryEntry_loop _ _ _ _ he).trans h₁

theorem leaves_open {path : Nat} {mode : FileMode} {r : Nat × Fs}
    (he : fat16Open K path mode = some r) : Leaves K r.2 := by
  unfold fat16Open at he
  dsimp only at he
  split at he
  · cases he
    exact .refl K
  · split at he
    · cases he
      exact ⟨⟨rfl, rfl⟩, rfl, rfl⟩
    · split at he
      · cases he
      · rename_i item K₂ hget
        have h₁ : Leaves K K₂ := .of_core (core_directoryEntry hget)
        split at he
        · cases he
          exact ⟨⟨h₁.table, h₁.closed⟩, h₁.roots, h₁.parts⟩
        · cases he
          exact ⟨⟨h₁.table, h₁.closed⟩, h₁.roots, h₁.parts⟩

end

/-! ## The ledger of an item -/

/-- Arrays that are allocated stay, with their entries. -/
def Arrays (K K' : Fs) : Prop :=
  ∀ a, K.Allocated a → K'.Allocated a ∧ K'.directoryItemsAt a = K.directoryItemsAt a

/-- What is at these addresses has not changed. -/
structure Frame (L : List Nat) (K K' : Fs) : Prop where
  items : ∀ p ∈ L, K'.fatItemAt p = K.fatItemAt p
  directories : ∀ p ∈ L, K'.fatDirectoryAt p = K.fatDirectoryAt p

/-- The block at `p` is free. -/
def Vacant (entries : Nat → UInt8) (p : Nat) : Prop :=
  ∃ b < 25600, p = blockAddr b ∧ Free (entries b)

/-- What is freed with the item at `f`. The array of an empty directory has no block. -/
inductive ItemBlocks (K : Fs) (f : Nat) : List Nat → Prop
  | file (hty : (K.fatItemAt f).type = .file) : ItemBlocks K f [(K.fatItemAt f).item, f]
  | directory (hty : (K.fatItemAt f).type = .directory) : ItemBlocks K f
      [(K.fatDirectoryAt (K.fatItemAt f).item).item, (K.fatItemAt f).item, f]
  | empty (hty : (K.fatItemAt f).type = .directory)
      (hfree : Vacant K.entries (K.fatDirectoryAt (K.fatItemAt f).item).item) :
      ItemBlocks K f [(K.fatItemAt f).item, f]

/-- The item was built whole: nothing was denied, and the entries of a directory were read. -/
structure Whole (K : Fs) (f : Nat) : Prop where
  item : (K.fatItemAt f).item ≠ 0
  directory : (K.fatItemAt f).type = .directory → K.Allocated (K.fatItemAt f).item

section

variable {e₀ : Nat → UInt8} {L B : List Nat} {K K' : Fs} {size f p : Nat}

theorem Arrays.trans {K'' : Fs} (h : Arrays K K') (h' : Arrays K' K'') : Arrays K K'' :=
  fun a ha => ⟨(h' a (h a ha).1).1, (h' a (h a ha).1).2.trans (h a ha).2⟩

/-- The heap and the arrays are what matters. -/
theorem Arrays.of_eq (hheap : K'.kmem.heap = K.kmem.heap)
    (hitems : K'.directoryItemsAt = K.directoryItemsAt) : Arrays K K' := fun a ha => by
  unfold Fs.Allocated Fs.entries
  rw [hheap, hitems]
  exact ⟨ha, rfl⟩

/-- Filling in an array leaves the others. -/
theorem Arrays.setDirectoryItems (h : Arrays K K') (hp : ∀ a, K.Allocated a → a ≠ p)
    (v : Nat → FatDirectoryItem) : Arrays K (K'.setDirectoryItems p v) := fun a ha =>
  ⟨(h a ha).1, (Function.update_of_ne (hp a ha) _ _).trans (h a ha).2⟩

/-- Taking free blocks leaves the arrays, and none of them begins there. -/
theorem Taken.arrays {k' : Kmem} {b n : Nat} (ht : Taken K.kmem size b n k')
    (hk : K.kmem.heap.Kernel) :
    Arrays K { K with kmem := k' } ∧ ∀ a, K.Allocated a → a ≠ blockAddr b := by
  refine ⟨fun a ha => ⟨?_, rfl⟩, fun a ha he => ?_⟩
  · have hblock : k'.heap.blockOf a = K.kmem.heap.blockOf a := by
      unfold Heap.blockOf
      rw [ht.kernel.saddr, hk.saddr]
    unfold Fs.Allocated Fs.entries
    dsimp only
    rw [hblock, ht.entries]
    split
    · exact chainEntry_not_free _ _
    · exact ha
  · subst he
    refine ha ?_
    rw [blockOf_blockAddr hk ht.lt]
    exact ht.here

/-- The outcomes of a request. -/
theorem Ledger.request (h : Ledger e₀ L K.kmem) (size : Nat) (hsize : size < 2 ^ 32) :
    ∃ p k', K.kzalloc size = (p, { K with kmem := k' }) ∧ Arrays K { K with kmem := k' } ∧
      (p = 0 ∧ Ledger e₀ L k' ∨ p ≠ 0 ∧ (∀ a, K.Allocated a → a ≠ p) ∧ (Ledger e₀ (p :: L) k' ∨
        ¬ (1 ≤ size ∧ size ≤ 2 ^ 32 - 4096) ∧ Ledger e₀ L k' ∧
          Vacant k'.heap.table.entries p)) := by
  unfold Fs.kzalloc
  rcases kzalloc_cases h.kernel hsize with he | ⟨b, n, k', he, ht⟩
  · rw [he]
    exact ⟨0, _, rfl, .of_eq rfl rfl, .inl ⟨rfl, h.deny⟩⟩
  · rw [he]
    obtain ⟨harrays, hne⟩ := ht.arrays h.kernel
    refine ⟨_, k', rfl, harrays, .inr ⟨blockAddr_ne_zero b, hne, ?_⟩⟩
    rcases Nat.eq_zero_or_pos n with rfl | hn
    · obtain ⟨h₁, hfree⟩ := h.taken_zero ht
      refine .inr ⟨?_, h₁, ?_⟩
      · rintro ⟨h1, h2⟩
        exact absurd (ht.pos h1 h2) (by decide)
      · exact ⟨b, ht.lt, rfl, hfree⟩
    · exact .inl (h.taken ht hn)

/-- A request of a structure. -/
theorem Ledger.grant (h : Ledger e₀ L K.kmem) (size : Nat) (h1 : 1 ≤ size)
    (h2 : size ≤ 2 ^ 32 - 4096) :
    ∃ p k', K.kzalloc size = (p, { K with kmem := k' }) ∧ Arrays K { K with kmem := k' } ∧
      (p = 0 ∧ Ledger e₀ L k' ∨
        p ≠ 0 ∧ (∀ a, K.Allocated a → a ≠ p) ∧ Ledger e₀ (p :: L) k') := by
  obtain ⟨p, k', he, ha, hz | ⟨hp, hne, hl | ⟨hno, -⟩⟩⟩ := h.request size (by omega)
  · exact ⟨p, k', he, ha, .inl hz⟩
  · exact ⟨p, k', he, ha, .inr ⟨hp, hne, hl⟩⟩
  · exact absurd ⟨h1, h2⟩ hno

/-- A freed directory is not allocated. -/
theorem Ledger.not_allocated (h : Ledger e₀ L K.kmem) (hp : p ∈ L) :
    ¬ (fat16FreeDirectory K p).Allocated p := by
  obtain ⟨b, hb, rfl⟩ := h.blockAddr hp
  exact freeDirectory_not_allocated h.kernel hb

theorem Ledger.loadFatDirectory (h : Ledger e₀ L K.kmem) {item : FatDirectoryItem} {d : Nat}
    (he : fat16LoadFatDirectory K item = some (d, K')) (hd : d ≠ 0) (ha : K'.Allocated d) :
    (Ledger e₀ ((K'.fatDirectoryAt d).item :: d :: L) K'.kmem ∨
      Ledger e₀ (d :: L) K'.kmem ∧ Vacant K'.entries (K'.fatDirectoryAt d).item) ∧
    Arrays K K' ∧ K'.fatItemAt = K.fatItemAt ∧
    ∀ p, p ≠ d → K'.fatDirectoryAt p = K.fatDirectoryAt p := by
  unfold fat16LoadFatDirectory at he
  split at he
  · cases he
    exact absurd rfl hd
  · obtain ⟨q, k₁, hz, harr, ⟨rfl, -⟩ | ⟨hq, -, h₁⟩⟩ := h.grant sizeofFatDirectory (by decide)
      (by decide)
    · rw [hz] at he
      dsimp only at he
      rw [if_pos rfl] at he
      cases he
      exact absurd rfl hd
    · rw [hz] at he
      dsimp only at he
      rw [if_neg hq] at he
      unfold fat16LoadFatDirectory.read at he
      dsimp only at he
      obtain ⟨K₁, hK₁⟩ : ∃ K₁, Fs.setFatDirectory { K with kmem := k₁ } q {} = K₁ := ⟨_, rfl⟩
      rw [hK₁] at he
      rcases totalItems_cases K₁ (Word.ofInt (fat16ClusterToSector K₁.priv.toFatPrivate
        (Word.toInt (fat16GetFirstCluster item)))) with ⟨-, hc⟩ | ⟨-, total, stream, hc⟩
      · rw [hc] at he
        cases he
      · rw [hc] at he
        dsimp only at he
        have hl₁ : Ledger e₀ (q :: L) K₁.kmem := by
          subst hK₁
          exact h₁
        have harr₁ : Arrays K { K₁ with priv := { K₁.priv with directoryStream := stream } } := by
          subst hK₁
          exact harr.trans (.of_eq rfl rfl)
        obtain ⟨a, k₂, hz₂, harr₂, hout⟩ := Ledger.request
          (K := { K₁ with priv := { K₁.priv with directoryStream := stream } }) hl₁
          _ (Word.ofInt_lt (total * sizeofFatDirectoryItem))
        rw [hz₂] at he
        dsimp only at he
        obtain ⟨K₂, hK₂⟩ : ∃ K₂, Fs.setFatDirectory { K₁ with
            kmem := k₂, priv := { K₁.priv with directoryStream := stream } } q
              { K₁.fatDirectoryAt q with item := a, total := total } = K₂ := ⟨_, rfl⟩
        have hitem : (K₂.fatDirectoryAt q).item = a := by
          subst hK₂
          unfold Fs.setFatDirectory
          dsimp only
          rw [Function.update_self]
        have hkmem : K₂.kmem = k₂ := by
          subst hK₂
          rfl
        rw [hK₂] at he
        -- a directory that is freed again is not what is asked for
        have hfreed : ∀ (K₃ : Fs) {L' : List Nat}, Ledger e₀ L' K₃.kmem → q ∈ L' →
            d = q → K' = fat16FreeDirectory K₃ q → False := fun K₃ L' h₃ hm hdq hK => by
          subst hdq
          subst hK
          exact h₃.not_allocated hm ha
        split at he
        · rename_i hzero
          cases he
          rcases hout with ⟨-, h₂⟩ | ⟨ha, -⟩
          · exact (hfreed K₂ (hkmem ▸ h₂) List.mem_cons_self rfl rfl).elim
          · exact absurd hzero ha
        · rename_i hne
          obtain ⟨-, hnew, hout⟩ := hout.resolve_left fun hz => hne hz.1
          split at he
          · cases he
          · rename_i res priv m hread
            obtain ⟨K₃, hK₃⟩ : ∃ K₃, Fs.setDirectoryItems { K₂.setMem m with
              priv := { K₂.priv with toFatPrivate := priv } } a (directoryItems m a) = K₃ := ⟨_, rfl⟩
            have hheap : K₃.kmem.heap = k₂.heap := by
              rw [← hkmem]
              subst hK₃
              rfl
            have hdirs : K₃.fatDirectoryAt = K₂.fatDirectoryAt := by
              subst hK₃
              rfl
            have hitems : K₃.fatItemAt = K.fatItemAt := by
              subst hK₃ hK₂ hK₁
              rfl
            rw [hK₃] at he
            cases he
            by_cases hres : res ≠ allOk
            · rw [if_pos hres] at hfreed
              rcases hout with h₂ | ⟨-, h₂, -⟩
              · exact (hfreed K₃ (h₂.congr hheap) (.tail _ List.mem_cons_self) rfl rfl).elim
              · exact (hfreed K₃ (h₂.congr hheap) List.mem_cons_self rfl rfl).elim
            · rw [if_neg hres, hdirs, hitem]
              refine ⟨?_, ?_, hitems, fun p hp => ?_⟩
              · rcases hout with h₂ | ⟨-, h₂, hfree⟩
                · exact .inl (h₂.congr hheap)
                · refine .inr ⟨h₂.congr hheap, ?_⟩
                  unfold Fs.entries
                  rwa [hheap]
              · have harr₃ : Arrays K (K₂.setMem m) := by
                  subst hK₂
                  exact harr₁.trans (harr₂.trans (.of_eq rfl rfl))
                subst hK₃
                refine Arrays.setDirectoryItems (harr₃.trans (.of_eq rfl rfl)) (fun b hb => ?_) _
                exact hnew b (harr₁ b hb).1
              · subst hK₂ hK₁
                unfold Fs.setFatDirectory
                dsimp only
                rw [Function.update_of_ne hp, Function.update_of_ne hp]

theorem setFatItem_self (K : Fs) (f : Nat) (v : FatItem) : (K.setFatItem f v).fatItemAt f = v :=
  Function.update_self _ _ _

/-- The item takes its blocks. -/
theorem Ledger.newFatItem (h : Ledger e₀ L K.kmem) {array i : Nat}
    (he : fat16NewFatItemForDirectoryItem K array i = some (f, K')) (hf : f ≠ 0) (hw : Whole K' f) :
    ∃ B, Ledger e₀ (B ++ L) K'.kmem ∧ ItemBlocks K' f B ∧ Frame L K K' ∧ Arrays K K' := by
  unfold fat16NewFatItemForDirectoryItem at he
  dsimp only at he
  obtain ⟨q, k₁, hz, harr, ⟨rfl, -⟩ | ⟨hq, -, h₁⟩⟩ := h.grant sizeofFatItem (by decide) (by decide)
  · rw [hz] at he
    dsimp only at he
    rw [if_pos rfl] at he
    cases he
    exact absurd rfl hf
  · rw [hz] at he
    dsimp only at he
    rw [if_neg hq] at he
    have hnew : ∀ p ∈ L, p ≠ q := fun p hp he => (List.nodup_cons.1 h₁.nodup).1 (he ▸ hp)
    split at he
    · split at he
      · cases he
      · rename_i d K₂ hload
        cases he
        have hat : (K₂.setFatItem f ⟨d, .directory, (array, i)⟩).fatItemAt f =
            ⟨d, .directory, (array, i)⟩ := setFatItem_self _ _ _
        have hd : d ≠ 0 := by
          have := hw.item
          rwa [hat] at this
        have halloc : K₂.Allocated d := by
          have := hw.directory
          rw [hat] at this
          exact this rfl
        obtain ⟨hled, harr₂, hitems, hdirs⟩ := Ledger.loadFatDirectory (K := { K with kmem := k₁ }) h₁ hload
          hd halloc
        have hne : ∀ p ∈ L, p ≠ d := fun p hp he => by
          have hnodup : (d :: f :: L).Nodup := by
            rcases hled with hl | ⟨hl, -⟩
            · exact (List.nodup_cons.1 hl.nodup).2
            · exact hl.nodup
          exact (List.nodup_cons.1 hnodup).1 (.tail _ (he ▸ hp))
        have hframe : Frame L K (K₂.setFatItem f ⟨d, .directory, (array, i)⟩) :=
          { items := fun p hp => by
              unfold Fs.setFatItem
              dsimp only
              rw [Function.update_of_ne (hnew p hp), hitems]
            directories := fun p hp => hdirs p (hne p hp) }
        have harr₃ : Arrays K (K₂.setFatItem f ⟨d, .directory, (array, i)⟩) :=
          harr.trans (harr₂.trans (.of_eq rfl rfl))
        rcases hled with hl | ⟨hl, hfree⟩
        · refine ⟨_, ?_, .directory (by rw [hat]), hframe, harr₃⟩
          rw [hat]
          exact hl
        · refine ⟨_, ?_, .empty (by rw [hat]) (by rw [hat]; exact hfree), hframe, harr₃⟩
          rw [hat]
          exact hl
    · unfold fat16CloneDirectoryItem at he
      obtain ⟨c, k₂, hz₂, harr₂, hout⟩ := Ledger.grant (K := { K with kmem := k₁ }) h₁
        sizeofFatDirectoryItem (by decide) (by decide)
      rw [hz₂] at he
      dsimp only at he
      rcases hout with ⟨rfl, -⟩ | ⟨hc, hcopy, h₂⟩
      · -- the copy was denied
        rw [if_pos rfl] at he
        cases he
        exact absurd (congrArg FatItem.item (setFatItem_self _ f ⟨0, .file, (array, i)⟩)) hw.item
      · rw [if_neg hc] at he
        cases he
        obtain ⟨K₃, hK₃⟩ : ∃ K₃, Fs.setDirectoryItems { K with kmem := k₂ } c
          (fun _ => K.directoryItemsAt array i) = K₃ := ⟨_, rfl⟩
        have hat : (K₃.setFatItem f ⟨c, .file, (array, i)⟩).fatItemAt f =
            ⟨c, .file, (array, i)⟩ := setFatItem_self _ _ _
        rw [hK₃]
        refine ⟨_, ?_, .file (by rw [hat]), ⟨fun p hp => ?_, fun p hp => ?_⟩, ?_⟩
        · rw [hat]
          subst hK₃
          exact h₂
        · subst hK₃
          exact Function.update_of_ne (hnew p hp) _ _
        · subst hK₃
          rfl
        · subst hK₃
          have hset : Arrays K (Fs.setDirectoryItems { K with kmem := k₂ } c
              fun _ => K.directoryItemsAt array i) :=
            (harr.trans harr₂).setDirectoryItems (fun b hb => hcopy b (harr b hb).1) _
          exact hset.trans (.of_eq rfl rfl)

/-- What is freed with a directory. -/
theorem Ledger.freeDirectory {d : Nat} (hd : d ≠ 0)
    (h : Ledger e₀ ((K.fatDirectoryAt d).item :: d :: L) K.kmem ∨ Ledger e₀ (d :: L) K.kmem ∧
      Vacant K.entries (K.fatDirectoryAt d).item) :
    ∃ k', fat16FreeDirectory K d = { K with kmem := k' } ∧ Ledger e₀ L k' ∧ K.kmem.Freer k' := by
  have hheap : (K.kmem.follow d).heap = K.kmem.heap := follow_heap K.kmem d
  have hfollow := Kmem.Freer.follow K.kmem d
  unfold fat16FreeDirectory
  rw [if_neg hd]
  dsimp only
  rcases h with h | ⟨h, hfree⟩
  · have ha : ((K.follow d).fatDirectoryAt d).item ≠ 0 := h.ne_zero List.mem_cons_self
    have h₁ := h.follow d
    rw [if_pos ha]
    exact ⟨_, rfl, h₁.kfree.kfree,
      (hfollow.trans (.kfree h₁.kernel _)).trans (.kfree h₁.kfree.kernel _)⟩
  · have h₁ := h.follow d
    split
    · have h₂ := h₁.kfree_free (p := (K.fatDirectoryAt d).item) fun _ => by
        obtain ⟨b, hb, ha, hfree⟩ := hfree
        rw [hheap, ha, freedBlock_blockAddr hb]
        exact hfree
      exact ⟨_, rfl, h₂.kfree, (hfollow.trans (.kfree h₁.kernel _)).trans (.kfree h₂.kernel _)⟩
    · exact ⟨_, rfl, h₁.kfree, hfollow.trans (.kfree h₁.kernel _)⟩

/-- The blocks of an item are what is freed with it. -/
theorem Ledger.fatItemFree (h : Ledger e₀ (B ++ L) K.kmem) (hb : ItemBlocks K f B) :
    ∃ k', fat16FatItemFree K f = { K with kmem := k' } ∧ Ledger e₀ L k' ∧ K.kmem.Freer k' := by
  have hheap : (K.kmem.follow f).heap = K.kmem.heap := follow_heap K.kmem f
  have h₁ : Ledger e₀ (B ++ L) (K.follow f).kmem := h.follow f
  have hfollow := Kmem.Freer.follow K.kmem f
  unfold fat16FatItemFree
  dsimp only
  -- both kinds of directory
  have hdir : ∀ d, ((K.follow f).fatItemAt f).item = d → d ≠ 0 →
      (Ledger e₀ (((K.follow f).fatDirectoryAt d).item :: d :: f :: L) (K.follow f).kmem ∨
        Ledger e₀ (d :: f :: L) (K.follow f).kmem ∧
          Vacant (K.follow f).entries ((K.follow f).fatDirectoryAt d).item) →
      ∃ k', (fat16FreeDirectory (K.follow f) ((K.follow f).fatItemAt f).item).kfree f =
        { K with kmem := k' } ∧ Ledger e₀ L k' ∧ K.kmem.Freer k' := fun d hd hne hl => by
    obtain ⟨k', he, hl', hfreer⟩ := Ledger.freeDirectory hne hl
    rw [hd, he]
    exact ⟨_, rfl, hl'.kfree, (hfollow.trans hfreer).trans (.kfree hl'.kernel f)⟩
  cases hb with
  | file hty =>
    have hty' : ((K.follow f).fatItemAt f).type = .file := hty
    rw [hty']
    exact ⟨_, rfl, h₁.kfree.kfree,
      (hfollow.trans (.kfree h₁.kernel _)).trans (.kfree h₁.kfree.kernel f)⟩
  | directory hty =>
    have hty' : ((K.follow f).fatItemAt f).type = .directory := hty
    rw [hty']
    exact hdir _ rfl (h₁.ne_zero (.tail _ List.mem_cons_self)) (.inl h₁)
  | empty hty hfree =>
    have hty' : ((K.follow f).fatItemAt f).type = .directory := hty
    have hentries : (K.follow f).entries = K.entries := congrArg (fun h => h.table.entries) hheap
    rw [hty']
    refine hdir _ rfl (h₁.ne_zero List.mem_cons_self) (.inr ⟨h₁, ?_⟩)
    rw [hentries]
    exact hfree

/-- Freeing other blocks leaves what is freed with an item. -/
theorem ItemBlocks.congr (h : ItemBlocks K f B) (hi : K'.fatItemAt = K.fatItemAt)
    (hd : K'.fatDirectoryAt = K.fatDirectoryAt) (hk : K.kmem.Freer K'.kmem) :
    ItemBlocks K' f B := by
  cases h with
  | file hty =>
    rw [← hi] at hty ⊢
    exact .file hty
  | directory hty =>
    rw [← hi] at hty ⊢
    rw [← hd]
    exact .directory hty
  | empty hty hfree =>
    obtain ⟨b, hb, ha, hfree⟩ := hfree
    rw [← hi, ← hd] at ha
    rw [← hi] at hty ⊢
    exact .empty hty ⟨b, hb, ha, hk b hfree⟩

theorem Frame.trans {K'' : Fs} (h : Frame L K K') (h' : Frame L K' K'') : Frame L K K'' :=
  ⟨fun p hp => (h'.items p hp).trans (h.items p hp),
    fun p hp => (h'.directories p hp).trans (h.directories p hp)⟩

end

/-! ## Searching once -/

/-- The name is that of one entry searched, in an array that is allocated, and its item is built
whole. -/
def SearchedOnce (K : Fs) (directory : FatDirectory) (name : Nat → UInt8) : Prop :=
  K.Allocated directory.item ∧
    ∃ i < directory.total.toNat,
      (∀ j < directory.total.toNat, K.Hit directory.item name j ↔ j = i) ∧
      ∀ f K', fat16NewFatItemForDirectoryItem K directory.item i = some (f, K') →
        f ≠ 0 ∧ Whole K' f

/-- Behind `currentItem`, every name along the path is searched once. -/
def WalksOnce.loop : (n : Nat) → Fs → (currentItem nextPart : Nat) → Prop
  | 0, _, _, nextPart => nextPart = 0
  | n + 1, K, currentItem, nextPart => nextPart ≠ 0 →
    (K.fatItemAt currentItem).type = .directory ∧
    let K := ((K.follow currentItem).follow nextPart).follow (K.fatItemAt currentItem).item
    let directory := K.fatDirectoryAt (K.fatItemAt currentItem).item
    let name := K.stringAt (K.pathPartAt nextPart).part
    SearchedOnce K directory name ∧
      ∀ tmpItem K', fat16FindItemInDirectory K directory name = some (tmpItem, K') →
        loop n (fat16FatItemFree K' currentItem) tmpItem (K'.pathPartAt nextPart).next

/-- Every name along the path is searched once. -/
def WalksOnce (K : Fs) (path : Nat) : Prop :=
  let K := K.follow path
  let name := K.stringAt (K.pathPartAt path).part
  SearchedOnce K K.priv.rootDirectory name ∧
    ∀ rootItem K', fat16FindItemInDirectory K K.priv.rootDirectory name = some (rootItem, K') →
      WalksOnce.loop maxPath K' rootItem (K'.pathPartAt path).next

section

variable {e₀ : Nat → UInt8} {L B : List Nat} {K K' : Fs} {f : Nat}

/-- Nothing is built where no entry has the name. -/
theorem findItem_loop_none {array : Nat} {name : Nat → UInt8} {K : Fs} :
    ∀ (n i f : Nat), (∀ j, i ≤ j → j < i + n → ¬ K.Hit array name j) →
      fat16FindItemInDirectory.loop array name n i f K = some (f, K)
  | 0, _, _, _ => rfl
  | n + 1, i, f, h => by
    have hno := h i (Nat.le_refl i) (by omega)
    unfold Fs.Hit at hno
    unfold fat16FindItemInDirectory.loop
    dsimp only
    rw [if_neg hno]
    exact findItem_loop_none n (i + 1) f fun j hj hj' => h j (by omega) (by omega)

/-- The search builds the item of the one entry that has the name. -/
theorem findItem_loop_once {array i₀ : Nat} {name : Nat → UInt8} (ha : K.Allocated array)
    (hframe : ∀ p K', fat16NewFatItemForDirectoryItem K array i₀ = some (p, K') → Arrays K K') :
    ∀ (n i f : Nat), i ≤ i₀ → i₀ < i + n →
      (∀ j, i ≤ j → j < i + n → (K.Hit array name j ↔ j = i₀)) →
      fat16FindItemInDirectory.loop array name n i f K =
        fat16NewFatItemForDirectoryItem K array i₀
  | 0, i, _, hi, hn, _ => absurd hn (by omega)
  | n + 1, i, f, hi, hn, hhit => by
    unfold fat16FindItemInDirectory.loop
    dsimp only
    rcases Nat.eq_or_lt_of_le hi with rfl | hlt
    · have hyes := (hhit i (Nat.le_refl i) (by omega)).2 rfl
      unfold Fs.Hit at hyes
      rw [if_pos hyes]
      cases hnew : fat16NewFatItemForDirectoryItem K array i with
      | none => rfl
      | some r =>
        -- the entries behind it are as they were
        have hsame := (hframe r.1 r.2 hnew array ha).2
        refine findItem_loop_none n (i + 1) r.1 fun j hj hj' hh => ?_
        unfold Fs.Hit at hh
        rw [hsame] at hh
        have := (hhit j (by omega) (by omega)).1 hh
        omega
    · have hno : ¬ K.Hit array name i := fun h => by
        have := (hhit i (Nat.le_refl i) (by omega)).1 h
        omega
      unfold Fs.Hit at hno
      rw [if_neg hno]
      exact findItem_loop_once ha hframe n (i + 1) f hlt (by omega)
        fun j hj hj' => hhit j (by omega) (by omega)

theorem Ledger.findItem (h : Ledger e₀ L K.kmem) {directory : FatDirectory} {name : Nat → UInt8}
    (honce : SearchedOnce K directory name)
    (he : fat16FindItemInDirectory K directory name = some (f, K')) :
    f ≠ 0 ∧ ∃ B, Ledger e₀ (B ++ L) K'.kmem ∧ ItemBlocks K' f B ∧ Frame L K K' := by
  obtain ⟨ha, i, hi, hhit, hwhole⟩ := honce
  have hnew : fat16FindItemInDirectory K directory name =
      fat16NewFatItemForDirectoryItem K directory.item i := by
    unfold fat16FindItemInDirectory
    refine findItem_loop_once ha (fun p K₁ hnew => ?_) _ 0 0 (Nat.zero_le i) (by omega)
      fun j _ hj => hhit j (by omega)
    obtain ⟨hp, hw⟩ := hwhole p K₁ hnew
    obtain ⟨-, -, -, -, harrays⟩ := h.newFatItem hnew hp hw
    exact harrays
  rw [hnew] at he
  obtain ⟨hf, hw⟩ := hwhole f K' he
  obtain ⟨B, hl, hb, hframe, -⟩ := h.newFatItem he hf hw
  exact ⟨hf, B, hl, hb, hframe⟩

/-- An array that is allocated is freed with its directory. -/
theorem ItemBlocks.of_allocated (h : ItemBlocks K f B) (hk : K.kmem.heap.Kernel)
    (hty : (K.fatItemAt f).type = .directory)
    (ha : K.Allocated (K.fatDirectoryAt (K.fatItemAt f).item).item) :
    B = [(K.fatDirectoryAt (K.fatItemAt f).item).item, (K.fatItemAt f).item, f] := by
  cases h with
  | file hty' =>
    rw [hty] at hty'
    cases hty'
  | directory => rfl
  | empty _ hfree =>
    obtain ⟨b, hb, he, hfree⟩ := hfree
    rw [he] at ha
    unfold Fs.Allocated at ha
    rw [blockOf_blockAddr hk hb] at ha
    exact absurd hfree ha

/-- What is at the blocks of a directory with an array decides what is freed with it. -/
theorem ItemBlocks.framed {a d : Nat} (h : ItemBlocks K f [a, d, f]) (hframe : Frame [a, d, f] K K') :
    ItemBlocks K' f [a, d, f] := by
  have hitem := hframe.items f (.tail _ (.tail _ List.mem_cons_self))
  cases h with
  | directory hty =>
    have hdir := hframe.directories (K.fatItemAt f).item (.tail _ List.mem_cons_self)
    have hd : ItemBlocks K' f [(K'.fatDirectoryAt (K'.fatItemAt f).item).item, (K'.fatItemAt f).item,
        f] := .directory (by rw [hitem]; exact hty)
    rwa [hitem, hdir] at hd

/-- What the walk leaves is the last item with its blocks. -/
theorem Ledger.walk : ∀ (n : Nat) (K : Fs) (currentItem nextPart : Nat) (B : List Nat),
    Ledger e₀ (B ++ L) K.kmem → ItemBlocks K currentItem B → currentItem ≠ 0 →
      WalksOnce.loop n K currentItem nextPart →
      fat16GetDirectoryEntry.loop n K currentItem nextPart = some (f, K') →
      f ≠ 0 ∧ ∃ B', Ledger e₀ (B' ++ L) K'.kmem ∧ ItemBlocks K' f B'
  | 0, K, currentItem, nextPart, B, h, hb, hne, hw, he => by
    unfold WalksOnce.loop at hw
    unfold fat16GetDirectoryEntry.loop at he
    rw [if_pos hw] at he
    cases he
    exact ⟨hne, B, h, hb⟩
  | n + 1, K, currentItem, nextPart, B, h, hb, hne, hw, he => by
    unfold fat16GetDirectoryEntry.loop at he
    dsimp only at he
    by_cases hnext : nextPart = 0
    · rw [if_pos hnext] at he
      cases he
      exact ⟨hne, B, h, hb⟩
    · obtain ⟨hty, honce, hwalk⟩ := hw hnext
      rw [if_neg hnext] at he
      have hty' : ((K.follow currentItem).fatItemAt currentItem).type = .directory := hty
      rw [hty'] at he
      dsimp only at he
      split at he
      · cases he
      · rename_i tmpItem K₂ hfind
        have hheap : ∀ p q, ((K.kmem.follow currentItem).follow p |>.follow q).heap = K.kmem.heap :=
          fun p q => by rw [follow_heap, follow_heap, follow_heap]
        -- the array of the directory is one of the blocks
        have halloc : K.Allocated (K.fatDirectoryAt (K.fatItemAt currentItem).item).item := by
          have ha := honce.1
          unfold Fs.Allocated Fs.entries Fs.follow at ha
          dsimp only at ha
          rw [hheap] at ha
          exact ha
        obtain rfl := hb.of_allocated h.kernel hty halloc
        obtain ⟨htmp, B', h₂, hb', hframe⟩ := Ledger.findItem
          (((h.follow currentItem).follow nextPart).follow (K.fatItemAt currentItem).item) honce hfind
        have hcur : ItemBlocks K₂ currentItem _ := hb.framed
          ⟨fun p hp => hframe.items p (List.mem_append_left _ hp),
            fun p hp => hframe.directories p (List.mem_append_left _ hp)⟩
        -- the item that is left is freed
        have hswap := h₂.perm (List.perm_append_comm_assoc B' _ L)
        obtain ⟨k', hfree, h₃, hfreer⟩ := hswap.fatItemFree hcur
        have hw' := hwalk tmpItem K₂ hfind
        rw [hfree] at he hw'
        exact Ledger.walk n { K₂ with kmem := k' } _ _ B' h₃ (hb'.congr rfl rfl hfreer) htmp hw' he

/-- The walk from the root directory. -/
theorem Ledger.directoryEntry (h : Ledger e₀ L K.kmem) {path : Nat} (hw : WalksOnce K path)
    (he : fat16GetDirectoryEntry K path = some (f, K')) :
    f ≠ 0 ∧ ∃ B, Ledger e₀ (B ++ L) K'.kmem ∧ ItemBlocks K' f B := by
  obtain ⟨honce, hwalk⟩ := hw
  unfold fat16GetDirectoryEntry at he
  dsimp only at he
  split at he
  · cases he
  · rename_i rootItem K₁ hfind
    obtain ⟨hroot, B, h₁, hb, -⟩ := Ledger.findItem (h.follow path) honce hfind
    rw [if_neg hroot] at he
    exact Ledger.walk maxPath K₁ _ _ B h₁ hb hroot (hwalk _ _ hfind) he

/-- The open of a path whose names are each searched once. -/
structure OpensOnce (K : Fs) (path : Nat) : Prop where
  served : (K.kzalloc sizeofFatDescriptor).1 ≠ 0
  walks : WalksOnce (K.kzalloc sizeofFatDescriptor).2 path

/-- What is open are the blocks of the descriptor and of its item. -/
theorem Ledger.open (h : Ledger e₀ L K.kmem) {path p : Nat} (ho : OpensOnce K path)
    (he : fat16Open K path .read = some (p, K')) :
    p ≠ 0 ∧ iserr p = false ∧ ∃ B, Ledger e₀ (B ++ p :: L) K'.kmem ∧
      ItemBlocks K' (K'.fatDescriptorAt p).item B := by
  obtain ⟨hserved, hwalks⟩ := ho
  obtain ⟨q, k₁, hz, -, hout⟩ := h.grant sizeofFatDescriptor (by decide) (by decide)
  unfold fat16Open at he
  rw [if_neg (not_not_intro rfl)] at he
  rw [hz] at he hserved hwalks
  dsimp only at he hserved hwalks
  obtain ⟨-, -, h₁⟩ := hout.resolve_left fun hc => hserved hc.1
  rw [if_neg hserved] at he
  split at he
  · cases he
  · rename_i item K₂ hentry
    obtain ⟨hitem, B, h₂, hb⟩ := Ledger.directoryEntry h₁ hwalks hentry
    rw [if_neg hitem] at he
    cases he
    have hat : ((K₂.setFatDescriptor p ⟨item, 0⟩).fatDescriptorAt p).item = item := by
      unfold Fs.setFatDescriptor
      dsimp only
      rw [Function.update_self]
    have hok : iserr p = false := by
      obtain ⟨b, hlt, rfl⟩ := h₁.blockAddr List.mem_cons_self
      have := blockAddr_lt hlt
      unfold iserr
      rw [Word.toInt_of_lt (by omega)]
      exact decide_eq_false (by omega)
    refine ⟨hserved, hok, B, h₂, ?_⟩
    rw [hat]
    exact hb.congr rfl rfl fun _ hj => hj

/-- Closing gives back the blocks of the descriptor and of its item. -/
theorem Ledger.close (h : Ledger e₀ (B ++ f :: L) K.kmem)
    (hb : ItemBlocks K (K.fatDescriptorAt f).item B) :
    ∃ k', (fat16Close K f).2 = { K with kmem := k', closed := f :: K.closed } ∧ Ledger e₀ L k' := by
  unfold fat16Close fat16FreeFileDescriptor
  dsimp only
  obtain ⟨K₁, hK₁⟩ : ∃ K₁, Fs.follow { K with closed := f :: K.closed } f = K₁ := ⟨_, rfl⟩
  have h₁ : Ledger e₀ (B ++ f :: L) K₁.kmem := by
    subst hK₁
    exact h.follow f
  have hb₁ : ItemBlocks K₁ (K₁.fatDescriptorAt f).item B := by
    subst hK₁
    exact hb.congr rfl rfl (.follow K.kmem f)
  obtain ⟨k', he, h₂, -⟩ := h₁.fatItemFree hb₁
  rw [hK₁, he]
  subst hK₁
  exact ⟨_, rfl, h₂.kfree⟩

end

end Pandora
