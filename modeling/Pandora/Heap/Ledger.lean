import Mathlib.Data.List.Perm.Basic
import Pandora.Heap.Held

/-!
# A ledger of allocations

`Ledger e₀ L k`: since the block table was `e₀`, exactly the chains that begin at the pointers of `L`
have been taken and not given back. An allocation adds its pointer, freeing one of them takes it out,
and with an empty ledger the free blocks are those that were free in `e₀` (`Ledger.free_iff`).

A request of no bytes is answered with the address of a block that stays free; it does not enter the
ledger, and freeing it changes nothing.
-/

namespace Pandora

/-- Block `j` is in the chain that begins at `p`. -/
def Owns (entries : Nat → UInt8) (p j : Nat) : Prop :=
  ∃ b n, p = blockAddr b ∧ IsChain entries 25600 b n ∧ b ≤ j ∧ j < b + n

/-- `L` is what was taken since the table was `e₀` (module doc). -/
structure Ledger (e₀ : Nat → UInt8) (L : List Nat) (k : Kmem) : Prop where
  kernel : k.heap.Kernel
  plain : ∀ j < 25600, Free (k.heap.table.entries j) → k.heap.table.entries j &&& hasNext = 0
  nodup : L.Nodup
  chain : ∀ p ∈ L, ∃ b n, p = blockAddr b ∧ IsChain k.heap.table.entries 25600 b n ∧
    ∀ j, b ≤ j → j < b + n → j < 25600 → Free (e₀ j)
  kept : ∀ j < 25600, Free (k.heap.table.entries j) → Free (e₀ j)
  rest : ∀ j < 25600, Free (e₀ j) → ¬ Free (k.heap.table.entries j) →
    ∃ p ∈ L, Owns k.heap.table.entries p j

section

variable {e₀ : Nat → UInt8} {L L' : List Nat} {k k' : Kmem} {size b n p : Nat}

theorem Ledger.nil (hk : k.heap.Kernel)
    (hp : ∀ j < 25600, Free (k.heap.table.entries j) → k.heap.table.entries j &&& hasNext = 0) :
    Ledger k.heap.table.entries [] k where
  kernel := hk
  plain := hp
  nodup := List.nodup_nil
  chain := fun _ hm => absurd hm List.not_mem_nil
  kept := fun _ _ h => h
  rest := fun _ _ h h' => absurd h h'

/-- The free blocks are what they were. -/
theorem Ledger.free_iff (h : Ledger e₀ [] k) {j : Nat} (hj : j < 25600) :
    Free (k.heap.table.entries j) ↔ Free (e₀ j) := by
  refine ⟨h.kept j hj, fun hfree => ?_⟩
  by_contra hno
  obtain ⟨p, hp, -⟩ := h.rest j hj hfree hno
  exact List.not_mem_nil hp

theorem Ledger.perm (h : Ledger e₀ L k) (hL : L.Perm L') : Ledger e₀ L' k where
  kernel := h.kernel
  plain := h.plain
  nodup := hL.nodup_iff.1 h.nodup
  chain := fun p hp => h.chain p (hL.mem_iff.2 hp)
  kept := h.kept
  rest := fun j hj hfree hno => by
    obtain ⟨p, hp, ho⟩ := h.rest j hj hfree hno
    exact ⟨p, hL.mem_iff.1 hp, ho⟩

/-- The heap is what matters. -/
theorem Ledger.congr (h : Ledger e₀ L k) (he : k'.heap = k.heap) : Ledger e₀ L k' where
  kernel := he ▸ h.kernel
  plain := he ▸ h.plain
  nodup := h.nodup
  chain := he ▸ h.chain
  kept := he ▸ h.kept
  rest := he ▸ h.rest

theorem Ledger.follow (h : Ledger e₀ L k) (p : Nat) : Ledger e₀ L (k.follow p) :=
  h.congr (follow_heap k p)

theorem Ledger.deny (h : Ledger e₀ L k) : Ledger e₀ L k.deny := h.congr rfl

/-- The pointers of the ledger are addresses of blocks. -/
theorem Ledger.blockAddr (h : Ledger e₀ L k) (hp : p ∈ L) :
    ∃ b < 25600, p = blockAddr b := by
  obtain ⟨b, n, hb, hc, -⟩ := h.chain p hp
  exact ⟨b, hc.lt, hb⟩

theorem Ledger.ne_zero (h : Ledger e₀ L k) (hp : p ∈ L) : p ≠ 0 := by
  obtain ⟨b, -, rfl⟩ := h.blockAddr hp
  exact blockAddr_ne_zero b

/-! ## Allocation -/

/-- The chain at a pointer of the ledger stays when free blocks are taken. -/
theorem Taken.chain (ht : Taken k size b n k') {s m : Nat}
    (hc : IsChain k.heap.table.entries 25600 s m) : IsChain k'.heap.table.entries 25600 s m := by
  refine hc.congr fun i hi him hit => ?_
  rw [ht.entries, if_neg]
  rintro ⟨hb, hbn⟩
  exact hc.not_free hi him hit (ht.free i hb hbn hit)

/-- The blocks that are taken are a chain. -/
theorem Taken.isChain (ht : Taken k size b n k') (hn : 1 ≤ n) :
    IsChain k'.heap.table.entries 25600 b n where
  pos := hn
  lt := ht.lt
  entry := fun i hi _ => by rw [ht.entries, if_pos (by omega), Nat.add_sub_cancel_left]

/-- A new pointer is not in the ledger. -/
theorem Ledger.notMem (h : Ledger e₀ L k) (ht : Taken k size b n k') : Pandora.blockAddr b ∉ L := by
  intro hm
  obtain ⟨b', n', he, hc, -⟩ := h.chain _ hm
  obtain rfl := blockAddr_inj.1 he
  exact hc.not_free (Nat.le_refl b) (by have := hc.pos; omega) hc.lt ht.here

theorem Ledger.taken (h : Ledger e₀ L k) (ht : Taken k size b n k') (hn : 1 ≤ n) :
    Ledger e₀ (Pandora.blockAddr b :: L) k' where
  kernel := ht.kernel
  plain := fun j hj hfree => by
    rw [ht.entries] at hfree ⊢
    split at hfree
    · exact absurd hfree (chainEntry_not_free _ _)
    · rename_i hout
      rw [if_neg hout]
      exact h.plain j hj hfree
  nodup := List.nodup_cons.2 ⟨h.notMem ht, h.nodup⟩
  chain := fun p hp => by
    rcases List.mem_cons.1 hp with rfl | hp
    · exact ⟨b, n, rfl, ht.isChain hn, fun j hj hjn hjt => h.kept j hjt (ht.free j hj hjn hjt)⟩
    · obtain ⟨b', n', he, hc, hfree⟩ := h.chain p hp
      exact ⟨b', n', he, ht.chain hc, hfree⟩
  kept := fun j hj hfree => by
    rw [ht.entries] at hfree
    split at hfree
    · exact absurd hfree (chainEntry_not_free _ _)
    · exact h.kept j hj hfree
  rest := fun j hj hfree hno => by
    by_cases hin : b ≤ j ∧ j < b + n
    · exact ⟨_, List.mem_cons_self, b, n, rfl, ht.isChain hn, hin.1, hin.2⟩
    · rw [ht.entries, if_neg hin] at hno
      obtain ⟨p, hp, b', n', he, hc, hb, hbn⟩ := h.rest j hj hfree hno
      exact ⟨p, .tail _ hp, b', n', he, ht.chain hc, hb, hbn⟩

/-- A request of no block takes none. -/
theorem Ledger.taken_zero (h : Ledger e₀ L k) (ht : Taken k size b 0 k') :
    Ledger e₀ L k' ∧ Free (k'.heap.table.entries b) := by
  have he : k'.heap.table.entries = k.heap.table.entries := by
    funext j
    rw [ht.entries, if_neg (by omega)]
  exact ⟨⟨ht.kernel, he ▸ h.plain, h.nodup, he ▸ h.chain, he ▸ h.kept, he ▸ h.rest⟩,
    he ▸ ht.here⟩

/-! ## Release -/

/-- Freeing the start of a chain clears its blocks. -/
theorem kfree_chain (hk : k.heap.Kernel) (hc : IsChain k.heap.table.entries 25600 b n) (j : Nat) :
    (kfree k (Pandora.blockAddr b)).heap.table.entries j =
      if b ≤ j ∧ j < b + n ∧ j < 25600 then entryFree else k.heap.table.entries j := by
  have hlt := hc.lt
  have hpos := hc.pos
  rw [kfree_entries hk, freedBlock_blockAddr hlt]
  exact markBlocksFree_loop_chain _ b _ (Nat.le_refl b) (by omega) (by omega)
    fun i _ hi hit => hc.entry i hi hit

theorem Ledger.kfree (h : Ledger e₀ (p :: L) k) : Ledger e₀ L (kfree k p) := by
  obtain ⟨b, n, rfl, hc, hfree⟩ := h.chain p List.mem_cons_self
  have he := kfree_chain h.kernel hc
  have hnodup := List.nodup_cons.1 h.nodup
  -- the other chains do not meet this one
  have hother : ∀ {s m : Nat}, s ≠ b → IsChain k.heap.table.entries 25600 s m →
      IsChain (Pandora.kfree k (Pandora.blockAddr b)).heap.table.entries 25600 s m :=
    fun hne hc' => hc'.congr fun i hi him hit => by
      have := hc.disjoint hc' hne.symm
      rw [he, if_neg (by omega)]
  exact
    { kernel := h.kernel.kfree _
      plain := fun j hj hf => by
        rw [he] at hf ⊢
        split
        · decide
        · rename_i hout
          rw [if_neg hout] at hf
          exact h.plain j hj hf
      nodup := hnodup.2
      chain := fun q hq => by
        obtain ⟨b', n', rfl, hc', hfree'⟩ := h.chain q (.tail _ hq)
        refine ⟨b', n', rfl, hother ?_ hc', hfree'⟩
        rintro rfl
        exact hnodup.1 hq
      kept := fun j hj hf => by
        rw [he] at hf
        split at hf
        · rename_i hin
          exact hfree j hin.1 hin.2.1 hj
        · exact h.kept j hj hf
      rest := fun j hj hf hno => by
        rw [he] at hno
        split at hno
        · exact absurd free_entryFree hno
        · rename_i hout
          obtain ⟨q, hq, b', n', rfl, hc', hb, hbn⟩ := h.rest j hj hf hno
          have hne : b' ≠ b := by
            rintro rfl
            have := hc.length_le hc' (by omega)
            omega
          refine ⟨_, (List.mem_cons.1 hq).resolve_left fun he => hne (blockAddr_inj.1 he), b', n',
            rfl, hother hne hc', hb, hbn⟩ }

/-- Freeing a free block, or outside the table, changes nothing but the entry. -/
theorem Ledger.kfree_free (h : Ledger e₀ L k)
    (hp : freedBlock p < 25600 → Free (k.heap.table.entries (freedBlock p))) :
    Ledger e₀ L (Pandora.kfree k p) := by
  obtain ⟨s, hs⟩ : ∃ s, freedBlock p = s := ⟨_, rfl⟩
  rw [hs] at hp
  have he : ∀ j, (Pandora.kfree k p).heap.table.entries j =
      if j = s ∧ j < 25600 then entryFree else k.heap.table.entries j := fun j => by
    rw [kfree_entries h.kernel, hs]
    by_cases hlt : s < 25600
    · rw [show 25600 - s = (25600 - s - 1) + 1 by omega]
      unfold heapMarkBlocksFree.loop
      dsimp only
      rw [if_pos (h.plain s hlt (hp hlt)), HeapTable.set_entries]
      by_cases hj : j = s
      · rw [if_pos hj, if_pos ⟨hj, hj ▸ hlt⟩]
      · rw [if_neg hj, if_neg fun hc => hj hc.1]
    · rw [show 25600 - s = 0 by omega, if_neg (by omega)]
      rfl
  have hchain : ∀ {s' m : Nat}, IsChain k.heap.table.entries 25600 s' m →
      IsChain (Pandora.kfree k p).heap.table.entries 25600 s' m :=
    fun hc => hc.congr fun i hi him hit => by
      rw [he, if_neg]
      rintro ⟨rfl, hlt⟩
      exact hc.not_free hi him hit (hp hlt)
  exact
    { kernel := h.kernel.kfree _
      plain := fun j hj hf => by
        rw [he] at hf ⊢
        split
        · decide
        · rename_i hout
          rw [if_neg hout] at hf
          exact h.plain j hj hf
      nodup := h.nodup
      chain := fun q hq => by
        obtain ⟨b', n', hb', hc', hfree'⟩ := h.chain q hq
        exact ⟨b', n', hb', hchain hc', hfree'⟩
      kept := fun j hj hf => by
        rw [he] at hf
        split at hf
        · rename_i hin
          obtain ⟨rfl, -⟩ := hin
          exact h.kept j hj (hp hj)
        · exact h.kept j hj hf
      rest := fun j hj hf hno => by
        rw [he] at hno
        split at hno
        · exact absurd free_entryFree hno
        · obtain ⟨q, hq, b', n', hb', hc', hb, hbn⟩ := h.rest j hj hf hno
          exact ⟨q, hq, b', n', hb', hchain hc', hb, hbn⟩ }

/-- Free blocks stay free. -/
def Kmem.Freer (k k' : Kmem) : Prop :=
  ∀ j, Free (k.heap.table.entries j) → Free (k'.heap.table.entries j)

theorem Kmem.Freer.trans {k'' : Kmem} (h : k.Freer k') (h' : k'.Freer k'') : k.Freer k'' :=
  fun j hj => h' j (h j hj)

theorem Kmem.Freer.follow (k : Kmem) (p : Nat) : k.Freer (k.follow p) := fun j hj => by
  rwa [follow_heap]

theorem Kmem.Freer.kfree (hk : k.heap.Kernel) (p : Nat) : k.Freer (Pandora.kfree k p) :=
  fun j hj => by
    rw [kfree_entries hk]
    exact markBlocksFree_loop_free _ _ _ hj

end

end Pandora
