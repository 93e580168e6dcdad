import Mathlib.Order.Interval.Finset.Nat
import Pandora.Heap.Ledger

/-!
# Requests of one block

`freeBlocks` are the blocks that are free. A request of one block is denied exactly where none is;
else it takes one, which is none of those of the ledger (`Page`).
-/

namespace Pandora

open ByteMem

/-- The free blocks of the kernel heap. -/
def freeBlocks (h : Heap) : Finset Nat :=
  (Finset.range 25600).filter fun b => Free (h.table.entries b)

section

variable {h : Heap} {e₀ : Nat → UInt8} {L : List Nat} {k k' k'' : Kmem} {size b p n : Nat}

theorem mem_freeBlocks :
    b ∈ freeBlocks h ↔ b < 25600 ∧ Free (h.table.entries b) := by
  unfold freeBlocks
  rw [Finset.mem_filter, Finset.mem_range]

theorem freeBlocks_markBlocksTaken (hb : b < 25600) :
    freeBlocks (heapMarkBlocksTaken h b 1) = (freeBlocks h).erase b := by
  ext j
  rw [Finset.mem_erase, mem_freeBlocks, mem_freeBlocks, markBlocksTaken_one _ hb]
  by_cases hj : j = b
  · rw [if_pos hj]
    exact iff_of_false (fun hc => chainEntry_not_free 1 0 hc.2) fun hc => hc.1 hj
  · rw [if_neg hj]
    exact ⟨fun hc => ⟨hj, hc⟩, And.right⟩

/-- All blocks from `n` on are free. -/
theorem le_freeBlocks (hfree : ∀ b, n ≤ b → b < 25600 → Free (h.table.entries b)) :
    25600 - n ≤ (freeBlocks h).card := by
  have hsub : Finset.Ico n 25600 ⊆ freeBlocks h := fun b hb => by
    obtain ⟨hlo, hhi⟩ := Finset.mem_Ico.1 hb
    exact mem_freeBlocks.2 ⟨hhi, hfree b hlo hhi⟩
  have := Finset.card_le_card hsub
  rwa [Nat.card_Ico] at this

/-- The bytes of the blocks of `L` are what they were. -/
def KeepsPages (L : List Nat) (k k' : Kmem) : Prop :=
  ∀ q ∈ L, ∀ x, q ≤ x → x < q + 4096 → k'.mem x = k.mem x

/-- What a request of one block answers: a new pointer of the ledger. -/
structure Page (e₀ : Nat → UInt8) (L : List Nat) (k : Kmem) (size p : Nat) (k' : Kmem) : Prop where
  ne_zero : p ≠ 0
  lt : p + 4096 ≤ 2 ^ 32
  ledger : Ledger e₀ (p :: L) k'
  mem : k'.mem = fill k.mem p size 0
  apart : ∀ q ∈ L, q + 4096 ≤ p ∨ p + 4096 ≤ q
  denied : k'.denied = k.denied
  taken : ∃ b, p = blockAddr b ∧ Taken k size b 1 k'
  free : (freeBlocks k'.heap).card + 1 = (freeBlocks k.heap).card

theorem Ledger.page (h : Ledger e₀ L k) (size : Nat) (h1 : 1 ≤ size) (h2 : size ≤ 4096) :
    ((freeBlocks k.heap).card = 0 ∧ kzalloc k size = (0, k.deny)) ∨
    ∃ p k', kzalloc k size = (p, k') ∧ Page e₀ L k size p k' := by
  rcases kzalloc_page h.kernel size h1 h2 with ⟨b, hb, hfree, -, he⟩ | ⟨he, hno⟩
  case inr =>
    refine .inl ⟨Finset.card_eq_zero.2 (Finset.eq_empty_of_forall_notMem fun b hb => ?_), he⟩
    exact hno b (mem_freeBlocks.1 hb).1 (mem_freeBlocks.1 hb).2
  case inl =>
    have hentries : ∀ j, (k.take b 1 size).heap.table.entries j =
        if j = b then chainEntry 1 0 else k.heap.table.entries j := markBlocksTaken_one k.heap hb
    have htaken : Taken k size b 1 (k.take b 1 size) := {
      lt := hb
      here := hfree
      free := fun j hj hj' _ => by
        obtain rfl : j = b := by omega
        exact hfree
      entries := fun j => by
        rw [hentries]
        by_cases hj : j = b
        · rw [if_pos hj, if_pos (by omega), show j - b = 0 by omega]
        · rw [if_neg hj, if_neg (by omega)]
      kernel := h.kernel.markBlocksTaken b 1
      fault := rfl
      denied := rfl
      blocks := fun _ _ => by
        unfold blocksFor
        omega }
    have hlt := blockAddr_lt hb
    have hnew := h.notMem htaken
    refine .inr ⟨Pandora.blockAddr b, k.take b 1 size, he, blockAddr_ne_zero b, by omega,
      h.taken htaken (Nat.le_refl 1), rfl, fun q hq => ?_, rfl, ⟨b, rfl, htaken⟩, ?_⟩
    · obtain ⟨b', hb', rfl⟩ := h.blockAddr hq
      have hne : b' ≠ b := fun hbb => hnew (hbb ▸ hq)
      unfold Pandora.blockAddr
      omega
    · rw [take_heap, freeBlocks_markBlocksTaken hb]
      exact Finset.card_erase_add_one (mem_freeBlocks.2 ⟨hb, hfree⟩)

/-- The block is no page that is kept. -/
theorem Page.keeps (h : Page e₀ L k size p k') (hL : ∀ q ∈ L, q + 4096 ≤ 2 ^ 32) (h2 : size ≤ 4096) :
    KeepsPages L k k' := fun q hq x hx hx' => by
  have hapart := h.apart q hq
  have hq' := hL q hq
  have hlt := h.lt
  rw [h.mem]
  exact fill_apply_of_outside (by omega) (by omega) (by omega)

/-- The pointers of a ledger are below the end of the heap. -/
theorem Ledger.lt (h : Ledger e₀ L k) : ∀ q ∈ L, q + 4096 ≤ 2 ^ 32 := fun q hq => by
  obtain ⟨b, hb, rfl⟩ := h.blockAddr hq
  have := blockAddr_lt hb
  omega

theorem KeepsPages.trans {k'' : Kmem} (h : KeepsPages L k k') (h' : KeepsPages L k' k'') :
    KeepsPages L k k'' := fun q hq x hx hx' => (h' q hq x hx hx').trans (h q hq x hx hx')

end

end Pandora
