import Mathlib.Data.List.GetD
import Pandora.Process.State

/-!
# Allocations in scope

While the kernel works on one process, the taken blocks of the heap are of three kinds: the
allocations in the scope of the work, named by an index type `ι` (`obj i = some (b, n)`: `n` blocks
from `b` on), the blocks of the file layer (`owned`), and the `rest`, which nothing may touch.
`Scope` says so, and that the rest is as it was in the kernel `K₀` the work began with. `kzalloc`
adds an allocation (`Scope.take`), `kfree` removes one (`Scope.kfree`), everything else changes
contents only (`Scope.update`).
-/

namespace Pandora

open ByteMem

/-- The memory of block `b` is the same. -/
def SameBlock (m m' : Mem) (b : Nat) : Prop :=
  ∀ x, blockAddr b ≤ x → x < blockAddr b + 4096 → m' x = m x

section

variable {σ ι : Type}

/-- The structures at the start of block `b` are the same, up to the links of a task. -/
structure SameStructs (K K' : Kernel σ) (b : Nat) : Prop where
  process : K'.processAt (blockAddr b) = K.processAt (blockAddr b)
  elfFile : K'.elfFileAt (blockAddr b) = K.elfFileAt (blockAddr b)
  task : (K'.queue.task (blockAddr b)).pageDirectory = (K.queue.task (blockAddr b)).pageDirectory

theorem SameBlock.refl (m : Mem) (b : Nat) : SameBlock m m b := fun _ _ _ => rfl

theorem SameBlock.trans {m m' m'' : Mem} {b : Nat} (h : SameBlock m m' b)
    (h' : SameBlock m' m'' b) : SameBlock m m'' b :=
  fun x hx hx' => (h' x hx hx').trans (h x hx hx')

theorem SameStructs.refl (K : Kernel σ) (b : Nat) : SameStructs K K b := ⟨rfl, rfl, rfl⟩

theorem SameStructs.trans {K K' K'' : Kernel σ} {b : Nat} (h : SameStructs K K' b)
    (h' : SameStructs K' K'' b) : SameStructs K K'' b :=
  ⟨h'.process.trans h.process, h'.elfFile.trans h.elfFile, h'.task.trans h.task⟩

/-- Block `j` is one of the `n` from `b` on. -/
def InChunk (c : Option (Nat × Nat)) (j : Nat) : Prop :=
  ∃ b n, c = some (b, n) ∧ b ≤ j ∧ j < b + n

theorem inChunk_none (j : Nat) : ¬ InChunk none j := by
  rintro ⟨b, n, h, -⟩
  cases h

/-- Block `b` is allocated, and not by the file layer. -/
def Kernel.Allocated (owned : σ → Nat → Prop) (K : Kernel σ) (b : Nat) : Prop :=
  b < 25600 ∧ ¬ Free (K.entries b) ∧ ¬ owned K.files b

/-- A heap in which free entries are zero, with the blocks `own` taken. -/
structure Tidy (own : Nat → Prop) (k : Kmem) : Prop where
  kernel : k.heap.Kernel
  clean : ∀ b < 25600, Free (k.heap.table.entries b) → k.heap.table.entries b = entryFree
  owned : ∀ b, own b → b < 25600 ∧ ¬ Free (k.heap.table.entries b)

structure Scope (owned : σ → Nat → Prop) (rest : Nat → Prop) (K₀ K : Kernel σ)
    (obj : ι → Option (Nat × Nat)) : Prop where
  tidy : Tidy (owned K.files) K.kmem
  chain : ∀ i b n, obj i = some (b, n) → b + n ≤ 25600 ∧ IsChain K.entries 25600 b n
  inj : ∀ i i' b n n', obj i = some (b, n) → obj i' = some (b, n') → i = i'
  apart : ∀ i j, InChunk (obj i) j → ¬ rest j ∧ ¬ owned K.files j
  taken : ∀ b, rest b → b < 25600 ∧ ¬ Free (K.entries b) ∧ ¬ owned K.files b
  same : ∀ b, rest b → K.entries b = K₀.entries b ∧ SameBlock K₀.mem K.mem b ∧ SameStructs K₀ K b
  cover : ∀ b < 25600, ¬ Free (K.entries b) → rest b ∨ owned K.files b ∨ ∃ i, InChunk (obj i) b

end

section

variable {σ ι : Type} {owned : σ → Nat → Prop} {rest : Nat → Prop}
  {K₀ K K' : Kernel σ} {obj : ι → Option (Nat × Nat)} {i : ι} {b n size : Nat}

namespace Scope

/-- Work can begin on any family of allocations; the rest is what is taken besides. -/
theorem init (ht : Tidy (owned K.files) K.kmem)
    (hchain : ∀ i b n, obj i = some (b, n) → b + n ≤ 25600 ∧ IsChain K.entries 25600 b n)
    (hinj : ∀ i i' b n n', obj i = some (b, n) → obj i' = some (b, n') → i = i')
    (hown : ∀ i j, InChunk (obj i) j → ¬ owned K.files j) :
    Scope owned (fun b => b < 25600 ∧ ¬ Free (K.entries b) ∧ ¬ owned K.files b ∧
      ∀ i, ¬ InChunk (obj i) b) K K obj where
  tidy := ht
  chain := hchain
  inj := hinj
  apart := fun i j hj => ⟨fun hr => hr.2.2.2 i hj, hown i j hj⟩
  taken := fun _ hr => ⟨hr.1, hr.2.1, hr.2.2.1⟩
  same := fun b _ => ⟨rfl, .refl _ b, .refl _ b⟩
  cover := fun b hb hf => by
    by_cases ho : owned K.files b
    · exact .inr (.inl ho)
    · by_cases hc : ∃ i, InChunk (obj i) b
      · exact .inr (.inr hc)
      · exact .inl ⟨hb, hf, ho, fun i hi => hc ⟨i, hi⟩⟩

variable (h : Scope owned rest K₀ K obj)

include h

theorem not_free (hi : obj i = some (b, n)) {j : Nat} (hj : b ≤ j) (hj' : j < b + n) :
    ¬ Free (K.entries j) := by
  obtain ⟨hlt, hc⟩ := h.chain i b n hi
  exact hc.not_free hj hj' (by omega)

theorem pos (hi : obj i = some (b, n)) : 1 ≤ n ∧ b < 25600 := by
  obtain ⟨hlt, hc⟩ := h.chain i b n hi
  exact ⟨hc.pos, hc.lt⟩

/-- Different allocations do not overlap. -/
theorem disjoint {k : ι} {b' n' : Nat} (hi : obj i = some (b, n)) (hk : obj k = some (b', n'))
    (hne : i ≠ k) : b + n ≤ b' ∨ b' + n' ≤ b := by
  refine (h.chain i b n hi).2.disjoint (h.chain k b' n' hk).2 fun he => hne ?_
  subst he
  exact h.inj i k b n n' hi hk

/-- A change of contents that leaves the rest alone. -/
theorem update (hheap : K'.kmem.heap = K.kmem.heap) (hfiles : K'.files = K.files)
    (hrest : ∀ b, rest b → SameBlock K.mem K'.mem b ∧ SameStructs K K' b) :
    Scope owned rest K₀ K' obj := by
  have he : K'.entries = K.entries := by
    unfold Kernel.entries
    rw [hheap]
  refine ⟨?_, by rw [he]; exact h.chain, h.inj, by rw [hfiles]; exact h.apart,
    by rw [he, hfiles]; exact h.taken, fun b hb => ?_, by rw [he, hfiles]; exact h.cover⟩
  · rw [hfiles]
    exact ⟨hheap ▸ h.tidy.kernel, hheap ▸ h.tidy.clean, hheap ▸ h.tidy.owned⟩
  · obtain ⟨h1, h2, h3⟩ := h.same b hb
    obtain ⟨h4, h5⟩ := hrest b hb
    exact ⟨by rw [he, h1], h2.trans h4, h3.trans h5⟩

/-- A block of the rest is not the start of an allocation in scope. -/
theorem ne_of_rest (hi : obj i = some (b, n)) {j : Nat} (hj : rest j) : j ≠ b := by
  rintro rfl
  exact (h.apart i j ⟨j, n, hi, Nat.le_refl j, by have := (h.pos hi).1; omega⟩).1 hj

/-- Free blocks become an allocation in scope. -/
theorem take [DecidableEq ι] (hi : obj i = none) (hn : 1 ≤ n) (hb : b + n ≤ 25600)
    (hrun : FreeRun K.entries b n) (hsize : size ≤ 4096 * n) :
    Scope owned rest K₀ { K with kmem := K.kmem.take b n size }
      (Function.update obj i (some (b, n))) := by
  have hentry : ∀ j, (K.kmem.take b n size).heap.table.entries j =
      if b ≤ j ∧ j < b + n then chainEntry n (j - b) else K.entries j :=
    markBlocksTaken_entries hn (by omega)
  have hin : ∀ j, b ≤ j → j < b + n → Free (K.entries j) := fun j h1 h2 => by
    have := hrun (j - b) (by omega)
    rwa [Nat.add_sub_cancel' h1] at this
  have hout : ∀ j, ¬ Free (K.entries j) →
      (K.kmem.take b n size).heap.table.entries j = K.entries j := fun j hj => by
    rw [hentry, if_neg fun hc => hj (hin j hc.1 hc.2)]
  have hnew : ∀ j, b ≤ j → j < b + n → ¬ Free ((K.kmem.take b n size).heap.table.entries j) :=
    fun j h1 h2 => by
      rw [hentry, if_pos ⟨h1, h2⟩]
      exact chainEntry_not_free _ _
  -- an allocation of the new family is the new one or one from before
  have hcases : ∀ i' b' n', Function.update obj i (some (b, n)) i' = some (b', n') →
      (i' = i ∧ b' = b ∧ n' = n) ∨ (i' ≠ i ∧ obj i' = some (b', n')) := fun i' b' n' he => by
    by_cases hii : i' = i
    · subst hii
      rw [Function.update_self] at he
      cases he
      exact .inl ⟨rfl, rfl, rfl⟩
    · rw [Function.update_of_ne hii] at he
      exact .inr ⟨hii, he⟩
  have hold : ∀ {i' b' n'}, obj i' = some (b', n') → b' ≠ b := fun he hbb => by
    subst hbb
    exact h.not_free he (Nat.le_refl _) (by have := (h.pos he).1; omega)
      (hin _ (Nat.le_refl _) (by omega))
  refine ⟨⟨h.tidy.kernel.markBlocksTaken b n, fun j hj hf => ?_, fun j hj => ?_⟩,
    fun i' b' n' he => ?_, fun i₁ i₂ b' n₁ n₂ h₁ h₂ => ?_, fun i' j hj => ?_, fun j hj => ?_,
    fun j hj => ?_, fun j hj hf => ?_⟩
  · rw [hentry] at hf ⊢
    split at hf
    · exact absurd hf (chainEntry_not_free _ _)
    · rename_i hc
      rw [if_neg hc]
      exact h.tidy.clean j hj hf
  · obtain ⟨h1, h2⟩ := h.tidy.owned j hj
    exact ⟨h1, (hout j h2).symm ▸ h2⟩
  · rcases hcases i' b' n' he with ⟨-, rfl, rfl⟩ | ⟨-, he⟩
    · refine ⟨hb, hn, by omega, fun k hk _ => ?_⟩
      have := hentry (b' + k)
      rw [if_pos ⟨by omega, by omega⟩, Nat.add_sub_cancel_left] at this
      exact this
    · obtain ⟨h1, h2⟩ := h.chain i' b' n' he
      exact ⟨h1, h2.congr fun j hj hj' _ => hout j (h.not_free he hj hj')⟩
  · rcases hcases _ _ _ h₁ with ⟨hi₁, hb₁, -⟩ | ⟨-, h₁⟩
    · rcases hcases _ _ _ h₂ with ⟨hi₂, -, -⟩ | ⟨-, h₂⟩
      · exact hi₁.trans hi₂.symm
      · exact absurd hb₁ (hold h₂)
    · rcases hcases _ _ _ h₂ with ⟨-, hb₂, -⟩ | ⟨-, h₂⟩
      · exact absurd hb₂ (hold h₁)
      · exact h.inj _ _ _ _ _ h₁ h₂
  · obtain ⟨b', n', he, h1, h2⟩ := hj
    rcases hcases _ _ _ he with ⟨-, rfl, rfl⟩ | ⟨-, he⟩
    · have hf := hin j h1 h2
      exact ⟨fun hr => (h.taken j hr).2.1 hf, fun ho => (h.tidy.owned j ho).2 hf⟩
    · exact h.apart i' j ⟨b', n', he, h1, h2⟩
  · obtain ⟨h1, h2, h3⟩ := h.taken j hj
    refine ⟨h1, ?_, h3⟩
    have := (hout j h2).symm ▸ h2
    exact this
  · obtain ⟨h1, h2, h3⟩ := h.same j hj
    obtain ⟨hlt, htaken, -⟩ := h.taken j hj
    refine ⟨(hout j htaken).trans h1, h2.trans fun x hx hx' => ?_, h3.trans ⟨rfl, rfl, rfl⟩⟩
    -- the zeroed bytes are in the new blocks
    have hjb : ¬ (b ≤ j ∧ j < b + n) := fun hc => htaken (hin j hc.1 hc.2)
    unfold blockAddr at hx hx'
    exact fill_apply_of_outside (by unfold blockAddr; omega) (by omega) (by unfold blockAddr; omega)
  · by_cases hc : b ≤ j ∧ j < b + n
    · exact .inr (.inr ⟨i, b, n, Function.update_self _ _ _, hc⟩)
    · have hf' : ¬ Free (K.entries j) := by
        have := hentry j
        rw [if_neg hc] at this
        exact this ▸ hf
      rcases h.cover j hj hf' with hr | ho | ⟨i', b', n', he, h1, h2⟩
      · exact .inl hr
      · exact .inr (.inl ho)
      · refine .inr (.inr ⟨i', b', n', ?_, h1, h2⟩)
        rw [Function.update_of_ne, he]
        rintro rfl
        rw [hi] at he
        cases he

/-- Where the entries stand after an allocation in scope is freed. -/
theorem kfree_entries (hi : obj i = some (b, n)) (j : Nat) :
    (K.kfree (blockAddr b)).entries j = if b ≤ j ∧ j < b + n then entryFree else K.entries j := by
  obtain ⟨hlt, hc⟩ := h.chain i b n hi
  have hk := h.tidy.kernel
  have hb := (h.pos hi).2
  have hfree : heapFree K.kmem.heap (blockAddr b) = heapMarkBlocksFree K.kmem.heap b := by
    rw [← hk.blockToAddress hb]
    exact heapFree_low hk.shape.saddr_lt (by omega)
  have hchain : IsChain K.kmem.heap.table.entries K.kmem.heap.table.total b n := by
    rw [hk.total]
    exact hc
  have := markBlocksFree_chain hchain (by omega) j
  rw [hk.total] at this
  have he : (K.kfree (blockAddr b)).entries = (heapFree K.kmem.heap (blockAddr b)).table.entries := by
    unfold Kernel.kfree Kernel.entries Pandora.kfree
    dsimp only
    rw [follow_heap]
  rw [he, hfree, this]
  unfold Kernel.entries
  by_cases hj : b ≤ j ∧ j < b + n
  · rw [if_pos hj, if_pos (by omega)]
  · rw [if_neg hj, if_neg (by omega)]

/-- An allocation in scope is freed. -/
theorem kfree [DecidableEq ι] (hi : obj i = some (b, n)) :
    Scope owned rest K₀ (K.kfree (blockAddr b)) (Function.update obj i none) := by
  have hentry := h.kfree_entries hi
  have hin : ∀ j, b ≤ j → j < b + n → ¬ rest j ∧ ¬ owned K.files j := fun j h1 h2 =>
    h.apart i j ⟨b, n, hi, h1, h2⟩
  have hcases : ∀ i' b' n', Function.update obj i none i' = some (b', n') →
      i' ≠ i ∧ obj i' = some (b', n') := fun i' b' n' he => by
    by_cases hii : i' = i
    · subst hii
      rw [Function.update_self] at he
      cases he
    · rw [Function.update_of_ne hii] at he
      exact ⟨hii, he⟩
  have hmem : (K.kfree (blockAddr b)).mem = K.mem := follow_mem _ _
  have hold : ∀ {i' b' n' j}, i' ≠ i → obj i' = some (b', n') → b' ≤ j → j < b' + n' →
      ¬ (b ≤ j ∧ j < b + n) := fun hii he h1 h2 hc => by
    have := h.disjoint hi he (Ne.symm hii)
    omega
  have hkernel : (K.kfree (blockAddr b)).kmem.heap.Kernel := by
    unfold Kernel.kfree Pandora.kfree
    dsimp only
    rw [follow_heap]
    exact h.tidy.kernel.free _
  refine ⟨⟨hkernel, fun j hj hf => ?_,
    fun j hj => ?_⟩, fun i' b' n' he => ?_, fun i₁ i₂ b' n₁ n₂ h₁ h₂ => ?_, fun i' j hj => ?_,
    fun j hj => ?_, fun j hj => ?_, fun j hj hf => ?_⟩
  · have he : (Pandora.kfree K.kmem (blockAddr b)).heap.table.entries j = _ := hentry j
    change Free ((K.kfree (blockAddr b)).entries j) at hf
    change (K.kfree (blockAddr b)).entries j = entryFree
    rw [hentry] at hf ⊢
    split
    · rfl
    · rename_i hc
      rw [if_neg hc] at hf
      exact h.tidy.clean j hj hf
  · obtain ⟨h1, h2⟩ := h.tidy.owned j hj
    refine ⟨h1, ?_⟩
    change ¬ Free ((K.kfree (blockAddr b)).entries j)
    rw [hentry, if_neg fun hc => (hin j hc.1 hc.2).2 hj]
    exact h2
  · obtain ⟨hii, he⟩ := hcases i' b' n' he
    obtain ⟨h1, h2⟩ := h.chain i' b' n' he
    refine ⟨h1, h2.congr fun j hj hj' _ => ?_⟩
    rw [hentry, if_neg (hold hii he hj hj')]
  · exact h.inj _ _ _ _ _ (hcases _ _ _ h₁).2 (hcases _ _ _ h₂).2
  · obtain ⟨b', n', he, h1, h2⟩ := hj
    exact h.apart i' j ⟨b', n', (hcases _ _ _ he).2, h1, h2⟩
  · obtain ⟨h1, h2, h3⟩ := h.taken j hj
    refine ⟨h1, ?_, h3⟩
    rw [hentry, if_neg fun hc => (hin j hc.1 hc.2).1 hj]
    exact h2
  · obtain ⟨h1, h2, h3⟩ := h.same j hj
    refine ⟨?_, hmem ▸ h2, h3.trans ⟨rfl, rfl, rfl⟩⟩
    rw [hentry, if_neg fun hc => (hin j hc.1 hc.2).1 hj]
    exact h1
  · rw [hentry] at hf
    split at hf
    · exact absurd free_entryFree hf
    · rename_i hc
      rcases h.cover j hj hf with hr | ho | ⟨i', b', n', he, h1, h2⟩
      · exact .inl hr
      · exact .inr (.inl ho)
      · refine .inr (.inr ⟨i', b', n', ?_, h1, h2⟩)
        rw [Function.update_of_ne, he]
        rintro rfl
        rw [hi] at he
        cases he
        exact hc ⟨h1, h2⟩

end Scope

end

end Pandora
