import Pandora.Fat.Owned

/-!
# Lookups that build solid items (`fs/fat/fat16.c`)

An item is `Solid` where nothing it points at is missing: it was built whole, and a directory has an
array. Names may occur more than once; the item of an earlier entry is then lost, and its blocks stay
taken. A lookup whose items are all solid adds to the ledger the blocks of the item it returns
(`Fs.itemBlocks`) and lost ones, and leaves what is at the other pointers of the ledger
(`Ledger.search_loop`, `Ledger.stroll`, `Ledger.opened`).
-/

namespace Pandora

open ByteMem

/-- The item and what it points at are there. -/
structure Solid (K : Fs) (f : Nat) : Prop extends Whole K f where
  array : (K.fatItemAt f).type = .directory →
    K.Allocated (K.fatDirectoryAt (K.fatItemAt f).item).item

/-- What is freed with a solid item, in its order. -/
def Fs.itemBlocks (K : Fs) (f : Nat) : List Nat :=
  match (K.fatItemAt f).type with
  | .file => [(K.fatItemAt f).item, f]
  | .directory => [(K.fatDirectoryAt (K.fatItemAt f).item).item, (K.fatItemAt f).item, f]

/-- What is held for the item at `f`, if there is one. -/
def Fs.heldBlocks (K : Fs) (f : Nat) : List Nat := if f = 0 then [] else K.itemBlocks f

/-- The loop of the search builds solid items only. -/
def BuildsSolid.loop (array : Nat) (name : Nat → UInt8) : (n i : Nat) → Fs → Prop
  | 0, _, _ => True
  | n + 1, i, K =>
    (K.Hit array name i → ∀ f K', fat16NewFatItemForDirectoryItem K array i = some (f, K') →
      f ≠ 0 ∧ Solid K' f ∧ loop array name n (i + 1) K') ∧
    (¬ K.Hit array name i → loop array name n (i + 1) K)

/-- The search builds solid items only. -/
def BuildsSolid (K : Fs) (directory : FatDirectory) (name : Nat → UInt8) : Prop :=
  BuildsSolid.loop directory.item name directory.total.toNat 0 K

/-- Behind `currentItem`, every name that is looked up in a directory is found, and the searches build
solid items only. -/
def WalksSolid.loop : (n : Nat) → Fs → (currentItem nextPart : Nat) → Prop
  | 0, _, _, _ => True
  | n + 1, K, currentItem, nextPart => nextPart ≠ 0 →
    currentItem ≠ 0 ∧ ((K.fatItemAt currentItem).type = .directory →
      let K := ((K.follow currentItem).follow nextPart).follow (K.fatItemAt currentItem).item
      let directory := K.fatDirectoryAt (K.fatItemAt currentItem).item
      let name := K.stringAt (K.pathPartAt nextPart).part
      BuildsSolid K directory name ∧
        ∀ tmpItem K', fat16FindItemInDirectory K directory name = some (tmpItem, K') →
          loop n (fat16FatItemFree K' currentItem) tmpItem (K'.pathPartAt nextPart).next)

/-- Along the path, every name but the last is found, and the searches build solid items only. -/
def WalksSolid (K : Fs) (path : Nat) : Prop :=
  let K := K.follow path
  let name := K.stringAt (K.pathPartAt path).part
  BuildsSolid K K.priv.rootDirectory name ∧
    ∀ rootItem K', fat16FindItemInDirectory K K.priv.rootDirectory name = some (rootItem, K') →
      rootItem ≠ 0 → WalksSolid.loop maxPath K' rootItem (K'.pathPartAt path).next

section

variable {e₀ : Nat → UInt8} {L M X : List Nat} {K K' : Fs} {f p : Nat}

theorem itemBlocks_spec (K : Fs) (f : Nat) : ItemBlocks K f (K.itemBlocks f) := by
  unfold Fs.itemBlocks
  cases hty : (K.fatItemAt f).type with
  | file => exact .file hty
  | directory => exact .directory hty

/-- The blocks of a solid item. -/
theorem Solid.blocks (hs : Solid K f) (hk : K.kmem.heap.Kernel) (hb : ItemBlocks K f M) :
    M = K.itemBlocks f := by
  unfold Fs.itemBlocks
  cases hty : (K.fatItemAt f).type with
  | directory => exact hb.of_allocated hk hty (hs.array hty)
  | file =>
    cases hb with
    | file => rfl
    | directory hty' => exact absurd (hty.symm.trans hty') (by decide)
    | empty hty' => exact absurd (hty.symm.trans hty') (by decide)

theorem Fs.heldBlocks_of_ne (K : Fs) (hf : f ≠ 0) : K.heldBlocks f = K.itemBlocks f := if_neg hf

theorem Frame.mono (h : Frame M K K') (hsub : ∀ p ∈ L, p ∈ M) : Frame L K K' :=
  ⟨fun p hp => h.items p (hsub p hp), fun p hp => h.directories p (hsub p hp)⟩

/-- The stores decide. -/
theorem itemBlocks_congr (hi : K'.fatItemAt f = K.fatItemAt f)
    (hd : (K.fatItemAt f).type = .directory →
      K'.fatDirectoryAt (K.fatItemAt f).item = K.fatDirectoryAt (K.fatItemAt f).item) :
    K'.itemBlocks f = K.itemBlocks f := by
  unfold Fs.itemBlocks
  rw [hi]
  cases hty : (K.fatItemAt f).type with
  | file => rfl
  | directory =>
    dsimp only
    rw [hd hty]

/-- The blocks of an item that is in the ledger stay its blocks. -/
theorem Frame.itemBlocks (h : Frame L K K') (hsub : ∀ p ∈ K.itemBlocks f, p ∈ L) :
    K'.itemBlocks f = K.itemBlocks f := by
  have hself : f ∈ K.itemBlocks f := by
    unfold Fs.itemBlocks
    cases (K.fatItemAt f).type with
    | file => exact .tail _ (.head _)
    | directory => exact .tail _ (.tail _ (.head _))
  refine itemBlocks_congr (h.items f (hsub f hself)) fun hty => ?_
  refine h.directories _ (hsub _ ?_)
  unfold Fs.itemBlocks
  rw [hty]
  exact .tail _ (.head _)

/-! ## The search -/

/-- The blocks of the item that was built last are held, those of the earlier ones are lost. -/
theorem Ledger.search_loop {array : Nat} {name : Nat → UInt8} {r : Nat} :
    ∀ (n i f : Nat) (K : Fs) (X : List Nat),
      Ledger e₀ (K.heldBlocks f ++ (X ++ L)) K.kmem → BuildsSolid.loop array name n i K →
      fat16FindItemInDirectory.loop array name n i f K = some (r, K') →
      ∃ X', Ledger e₀ (K'.heldBlocks r ++ (X' ++ L)) K'.kmem ∧ Frame L K K'
  | 0, _, _, K, X, h, _, he => by
    cases he
    exact ⟨X, h, fun _ _ => rfl, fun _ _ => rfl⟩
  | n + 1, i, f, K, X, h, hb, he => by
    unfold fat16FindItemInDirectory.loop at he
    dsimp only at he
    by_cases hhit : K.Hit array name i
    · have hsolid := hb.1 hhit
      unfold Fs.Hit at hhit
      rw [if_pos hhit] at he
      split at he
      · cases he
      · rename_i q K₁ hnew
        obtain ⟨hq, hs, hb'⟩ := hsolid q K₁ hnew
        obtain ⟨B, h₁, hblocks, hframe, -⟩ := h.newFatItem hnew hq hs.toWhole
        obtain rfl := hs.blocks h₁.kernel hblocks
        have hsub : ∀ p ∈ L, p ∈ K.heldBlocks f ++ (X ++ L) := fun p hp =>
          List.mem_append_right _ (List.mem_append_right _ hp)
        have h₂ : Ledger e₀ (K₁.heldBlocks q ++ ((K.heldBlocks f ++ X) ++ L)) K₁.kmem := by
          rw [K₁.heldBlocks_of_ne hq, List.append_assoc (K.heldBlocks f)]
          exact h₁
        obtain ⟨X', h₃, hframe'⟩ := search_loop n (i + 1) q K₁ _ h₂ hb' he
        exact ⟨X', h₃, (hframe.mono hsub).trans hframe'⟩
    · have hb' := hb.2 hhit
      unfold Fs.Hit at hhit
      rw [if_neg hhit] at he
      exact search_loop n (i + 1) f K X h hb' he

theorem Ledger.search (h : Ledger e₀ L K.kmem) {directory : FatDirectory} {name : Nat → UInt8}
    (hb : BuildsSolid K directory name)
    (he : fat16FindItemInDirectory K directory name = some (f, K')) :
    ∃ X, Ledger e₀ (K'.heldBlocks f ++ (X ++ L)) K'.kmem ∧ Frame L K K' :=
  Ledger.search_loop _ 0 0 K [] h hb he

/-! ## The walk -/

/-- The walk frees every item it leaves for a found one. -/
theorem Ledger.stroll {r : Nat} : ∀ (n : Nat) (K : Fs) (currentItem nextPart : Nat) (X : List Nat),
    Ledger e₀ (K.heldBlocks currentItem ++ (X ++ L)) K.kmem →
      WalksSolid.loop n K currentItem nextPart →
      fat16GetDirectoryEntry.loop n K currentItem nextPart = some (r, K') →
      ∃ X', Ledger e₀ (K'.heldBlocks r ++ (X' ++ L)) K'.kmem ∧ Frame L K K'
  | 0, K, currentItem, nextPart, X, h, _, he => by
    unfold fat16GetDirectoryEntry.loop at he
    split at he
    · cases he
      exact ⟨X, h, fun _ _ => rfl, fun _ _ => rfl⟩
    · cases he
  | n + 1, K, currentItem, nextPart, X, h, hw, he => by
    unfold fat16GetDirectoryEntry.loop at he
    dsimp only at he
    by_cases hnext : nextPart = 0
    · rw [if_pos hnext] at he
      cases he
      exact ⟨X, h, fun _ _ => rfl, fun _ _ => rfl⟩
    · obtain ⟨hne, hdirectory⟩ := hw hnext
      rw [if_neg hnext] at he
      rw [K.heldBlocks_of_ne hne] at h
      cases hty : (K.fatItemAt currentItem).type with
      | file =>
        -- the item is lost
        have hty' : ((K.follow currentItem).fatItemAt currentItem).type = .file := hty
        rw [hty'] at he
        cases he
        refine ⟨K.itemBlocks currentItem ++ X, ?_, fun _ _ => rfl, fun _ _ => rfl⟩
        have hzero : (K.follow currentItem).heldBlocks 0 = [] := rfl
        rw [hzero, List.append_assoc]
        exact h.follow currentItem
      | directory =>
        obtain ⟨hbuilds, hwalk⟩ := hdirectory hty
        have hty' : ((K.follow currentItem).fatItemAt currentItem).type = .directory := hty
        rw [hty'] at he
        dsimp only at he
        split at he
        · cases he
        · rename_i tmpItem K₂ hfind
          have h₁ := ((h.follow currentItem).follow nextPart).follow (K.fatItemAt currentItem).item
          obtain ⟨X', h₂, hframe⟩ := Ledger.search (K := ((K.follow currentItem).follow
            nextPart).follow (K.fatItemAt currentItem).item) h₁ hbuilds hfind
          have hcur : K₂.itemBlocks currentItem = K.itemBlocks currentItem :=
            hframe.itemBlocks fun p hp => List.mem_append_left _ hp
          -- the item that is left is freed
          have hswap : Ledger e₀ (K.itemBlocks currentItem ++
              (K₂.heldBlocks tmpItem ++ ((X' ++ X) ++ L))) K₂.kmem := by
            refine h₂.perm ?_
            have hrest : ((X' ++ X) ++ L) = X' ++ (X ++ L) := List.append_assoc _ _ _
            rw [hrest, ← List.append_assoc (K₂.heldBlocks tmpItem),
              ← List.append_assoc (K₂.heldBlocks tmpItem)]
            exact List.perm_append_comm_assoc _ _ _
          obtain ⟨k', hfree, h₃, -⟩ := hswap.fatItemFree (hcur ▸ itemBlocks_spec K₂ currentItem)
          have hw' := hwalk tmpItem K₂ hfind
          rw [hfree] at he hw'
          obtain ⟨X'', h₄, hframe'⟩ := Ledger.stroll n { K₂ with kmem := k' } _ _ _ h₃ hw' he
          have hsub : ∀ p ∈ L, p ∈ K.itemBlocks currentItem ++ (X ++ L) := fun p hp =>
            List.mem_append_right _ (List.mem_append_right _ hp)
          have hframe₀ : Frame L K K₂ :=
            ⟨(hframe.mono hsub).items, (hframe.mono hsub).directories⟩
          exact ⟨X'', h₄, hframe₀.trans ⟨hframe'.items, hframe'.directories⟩⟩

theorem Ledger.strollPath (h : Ledger e₀ L K.kmem) {path : Nat} (hw : WalksSolid K path)
    (he : fat16GetDirectoryEntry K path = some (f, K')) :
    ∃ X, Ledger e₀ (K'.heldBlocks f ++ (X ++ L)) K'.kmem ∧ Frame L K K' := by
  obtain ⟨hbuilds, hwalk⟩ := hw
  unfold fat16GetDirectoryEntry at he
  dsimp only at he
  split at he
  · cases he
  · rename_i rootItem K₁ hfind
    obtain ⟨X, h₁, hframe⟩ := Ledger.search (K := K.follow path) (h.follow path) hbuilds hfind
    have hframe₀ : Frame L K K₁ := ⟨hframe.items, hframe.directories⟩
    by_cases hroot : rootItem = 0
    · rw [if_pos hroot] at he
      rw [hroot] at h₁
      cases he
      exact ⟨X, h₁, hframe₀⟩
    · rw [if_neg hroot] at he
      obtain ⟨X', h₂, hframe'⟩ := Ledger.stroll maxPath K₁ _ _ X h₁ (hwalk _ _ hfind hroot) he
      exact ⟨X', h₂, hframe₀.trans hframe'⟩

/-- **A successful open** adds the descriptor and the blocks of its item, and lost ones. -/
theorem Ledger.opened (h : Ledger e₀ L K.kmem) {path : Nat} {mode : FileMode}
    (hw : WalksSolid (K.kzalloc sizeofFatDescriptor).2 path)
    (he : fat16Open K path mode = some (p, K')) (hok : iserr p = false) :
    ∃ X, Ledger e₀ (K'.itemBlocks (K'.fatDescriptorAt p).item ++ p :: (X ++ L)) K'.kmem ∧
      Frame L K K' ∧ (∀ q ∈ L, K'.fatDescriptorAt q = K.fatDescriptorAt q) ∧
      K'.fileDescriptorAt = K.fileDescriptorAt := by
  unfold fat16Open at he
  dsimp only at he
  split at he
  · cases he
    exact absurd hok (not_iserr_ne (by decide) (by decide))
  · obtain ⟨q, k₁, hz, -, hout⟩ := h.grant sizeofFatDescriptor (by decide) (by decide)
    rw [hz] at he hw
    dsimp only at he hw
    split at he
    · cases he
      exact absurd hok (not_iserr_ne (by decide) (by decide))
    · rename_i hq
      obtain ⟨-, -, h₁⟩ := hout.resolve_left fun hc => hq hc.1
      split at he
      · cases he
      · rename_i item K₂ hentry
        split at he
        · cases he
          exact absurd hok (not_iserr_ne (by decide) (by decide))
        · rename_i hitem
          cases he
          obtain ⟨X, h₂, hframe⟩ := Ledger.strollPath (K := { K with kmem := k₁ }) h₁ hw hentry
          have hcore := core_directoryEntry hentry
          unfold Fs.core at hcore
          simp only [Prod.mk.injEq] at hcore
          obtain ⟨-, -, -, -, hdescriptors, hfiles⟩ := hcore
          have hat : ((K₂.setFatDescriptor p ⟨item, 0⟩).fatDescriptorAt p).item = item := by
            unfold Fs.setFatDescriptor
            dsimp only
            rw [Function.update_self]
          have hne : ∀ q ∈ L, q ≠ p := fun q hq he =>
            (List.nodup_cons.1 h₁.nodup).1 (he ▸ hq)
          refine ⟨X, ?_, ⟨fun q hq => hframe.items q (.tail _ hq),
            fun q hq => hframe.directories q (.tail _ hq)⟩, fun q hq => ?_, hfiles⟩
          · rw [K₂.heldBlocks_of_ne hitem] at h₂
            rw [hat]
            refine h₂.perm (List.Perm.append_left _ ?_)
            exact List.perm_middle
          · refine (Function.update_of_ne (hne q hq) _ _).trans ?_
            exact congrFun hdescriptors q

end

end Pandora
