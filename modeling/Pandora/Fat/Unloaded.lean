import Pandora.Fat.Loaded

/-!
# A subdirectory that cannot be loaded (`fs/fat/fat16.c`)

`fat16_load_fat_directory` frees its directory where the load fails, and returns the address of it all the
same. Only where there was no block for the directory itself is that address null
(`subdirectory_reported_iff`); otherwise `fat16_new_fat_item_for_directory_item` puts it into an item that
is searched and freed later.
-/

namespace Pandora

open ByteMem

/-! ## Failures -/

/-- The ways to `out` with an error, for the entry of a subdirectory: no memory for the directory, no
memory for its entries, or entries that cannot be read. -/
inductive LoadFails (K : Fs) (item : FatDirectoryItem) : Prop
  | noDirectory (h : (K.kzalloc sizeofFatDirectory).1 = 0)
  | noItems {directory : Nat} {K₁ K₂ : Fs} {total : Int}
      (hdir : K.kzalloc sizeofFatDirectory = (directory, K₁)) (hne : directory ≠ 0)
      (hcount : fat16GetTotalItemsForDirectory (K₁.setFatDirectory directory {})
        (K₁.priv.itemSector item) = some (total, K₂))
      (hitems : (K₂.kzalloc (Word.ofInt (total * sizeofFatDirectoryItem))).1 = 0)
  | unread {directory items : Nat} {K₁ K₂ K₃ : Fs} {total res : Int} {priv : FatPrivate} {m : Mem}
      (hdir : K.kzalloc sizeofFatDirectory = (directory, K₁)) (hne : directory ≠ 0)
      (hcount : fat16GetTotalItemsForDirectory (K₁.setFatDirectory directory {})
        (K₁.priv.itemSector item) = some (total, K₂))
      (hitems : K₂.kzalloc (Word.ofInt (total * sizeofFatDirectoryItem)) = (items, K₃))
      (hine : items ≠ 0)
      (hread : fat16ReadInternal K₃.disk K₃.priv.toFatPrivate
        (Word.toInt (fat16GetFirstCluster item)) 0
        (Word.toInt (Word.ofInt (total * sizeofFatDirectoryItem))) items K₃.mem = some (res, priv, m))
      (hres : res ≠ allOk)

/-- The item is null, or its directory is null or allocated. -/
def Fs.Safe (K : Fs) (item : Nat) : Prop :=
  item = 0 ∨ (K.fatItemAt item).item = 0 ∨ K.Allocated (K.fatItemAt item).item

section

variable {K : Fs} {item : FatDirectoryItem}

theorem totalItems_kmem {K₂ : Fs} {sector : Nat} {total : Int}
    (h : fat16GetTotalItemsForDirectory K sector = some (total, K₂)) : K₂.kmem = K.kmem := by
  rcases totalItems_cases K sector with ⟨-, hnone⟩ | ⟨-, total', stream, he⟩
  · rw [hnone] at h
    cases h
  · rw [he] at h
    cases h
    rfl

/-- With a block for the directory, what is returned where the load fails is that block, and it is
freed. -/
theorem LoadFails.returns (h : LoadFails K item) (hk : K.kmem.heap.Kernel) (hsub : item.Subdirectory)
    (hne : (K.kzalloc sizeofFatDirectory).1 ≠ 0) :
    ∃ K', fat16LoadFatDirectory K item = some ((K.kzalloc sizeofFatDirectory).1, K') ∧
      ¬ K'.Allocated (K.kzalloc sizeofFatDirectory).1 := by
  have hattribute : ¬ item.itemAttribute &&& fatFileSubdirectory = 0 := hsub
  obtain ⟨b, hb, haddr⟩ : ∃ b < 25600, (K.kzalloc sizeofFatDirectory).1 = blockAddr b := by
    unfold Fs.kzalloc at hne ⊢
    rcases kzalloc_page hk sizeofFatDirectory (by decide) (by decide) with
      ⟨b, hb, -, -, he⟩ | ⟨he, -⟩
    · exact ⟨b, hb, by rw [he]⟩
    · exact absurd (by rw [he]) hne
  have hk₁ : (K.kzalloc sizeofFatDirectory).2.kmem.heap.Kernel := hk.kzalloc _
  unfold fat16LoadFatDirectory
  rw [if_neg hattribute]
  cases h with
  | noDirectory h0 => exact absurd h0 hne
  | @noItems directory K₁ K₂ total hdir hne' hcount hitems =>
    have hcount' : fat16GetTotalItemsForDirectory (K₁.setFatDirectory directory {})
        (Word.ofInt (fat16ClusterToSector (K₁.setFatDirectory directory {}).priv.toFatPrivate
          (Word.toInt (fat16GetFirstCluster item)))) = some (total, K₂) := hcount
    rw [hdir] at haddr hk₁ ⊢
    obtain rfl : directory = blockAddr b := haddr
    have hk₂ : K₂.kmem.heap.Kernel := by
      rw [totalItems_kmem hcount]
      exact hk₁
    dsimp only
    rw [if_neg hne']
    unfold fat16LoadFatDirectory.read
    dsimp only
    rw [hcount']
    dsimp only
    rw [if_pos hitems]
    exact ⟨_, rfl, freeDirectory_not_allocated (hk₂.kzalloc _) hb⟩
  | @unread directory items K₁ K₂ K₃ total res priv m hdir hne' hcount hitems hine hread hres =>
    have hcount' : fat16GetTotalItemsForDirectory (K₁.setFatDirectory directory {})
        (Word.ofInt (fat16ClusterToSector (K₁.setFatDirectory directory {}).priv.toFatPrivate
          (Word.toInt (fat16GetFirstCluster item)))) = some (total, K₂) := hcount
    have hread' : ∀ v, fat16ReadInternal (K₃.setFatDirectory directory v).disk
        (K₃.setFatDirectory directory v).priv.toFatPrivate (Word.toInt (fat16GetFirstCluster item)) 0
        (Word.toInt (Word.ofInt (total * sizeofFatDirectoryItem))) items
        (K₃.setFatDirectory directory v).mem = some (res, priv, m) := fun _ => hread
    rw [hdir] at haddr hk₁ ⊢
    obtain rfl : directory = blockAddr b := haddr
    have hk₃ : K₃.kmem.heap.Kernel := by
      have hk₂ : K₂.kmem.heap.Kernel := by
        rw [totalItems_kmem hcount]
        exact hk₁
      have : (K₂.kzalloc (Word.ofInt (total * sizeofFatDirectoryItem))).2.kmem.heap.Kernel :=
        hk₂.kzalloc _
      rwa [hitems] at this
    dsimp only
    rw [if_neg hne']
    unfold fat16LoadFatDirectory.read
    dsimp only
    rw [hcount']
    dsimp only
    rw [hitems]
    dsimp only
    rw [if_neg hine, hread']
    dsimp only
    rw [if_pos hres]
    refine ⟨_, rfl, freeDirectory_not_allocated ?_ hb⟩
    exact hk₃

end

end Pandora
